import Mathlib.Tactic.Common
import Mathlib.Tactic.Ring

/-!
# Bytes — machine words as byte strings, and copies into a block of memory

`leBytes` and `leNat` are the little-endian encoding of a word of a given width and its decoding;
the network (big-endian) order is the reversed string.  `overwrite` is `memcpy` into a block.
-/

namespace Reasoning

/-! ## 1. Little-endian words -/

/-- The `width` low bytes of `n`, least significant first. -/
def leBytes : Nat → Nat → List UInt8
  | 0, _ => []
  | width + 1, n => UInt8.ofNat n :: leBytes width (n / 256)

/-- The number whose bytes are `bs`, least significant first. -/
def leNat : List UInt8 → Nat
  | [] => 0
  | b :: bs => b.toNat + 256 * leNat bs

/-- The number whose bytes are `bs` in network order. -/
def beNat (bs : List UInt8) : Nat := leNat bs.reverse

/-- The `width` low bytes of `n` in network order. -/
def beBytes (width n : Nat) : List UInt8 := (leBytes width n).reverse

@[simp] theorem leBytes_length (width n : Nat) : (leBytes width n).length = width := by
  induction width generalizing n with
  | zero => rfl
  | succ w ih => simp [leBytes, ih]

@[simp] theorem beBytes_length (width n : Nat) : (beBytes width n).length = width := by
  simp [beBytes]

theorem leNat_lt (bs : List UInt8) : leNat bs < 256 ^ bs.length := by
  induction bs with
  | nil => simp [leNat]
  | cons b bs ih =>
    have hb := b.toNat_lt
    rw [List.length_cons, pow_succ, leNat]
    omega

theorem leNat_leBytes (width n : Nat) : leNat (leBytes width n) = n % 256 ^ width := by
  induction width generalizing n with
  | zero => simp [leBytes, leNat, Nat.mod_one]
  | succ w ih =>
    have hlow : (UInt8.ofNat n).toNat = n % 256 := UInt8.toNat_ofNat'
    rw [leBytes, leNat, ih, hlow, pow_succ, Nat.mul_comm (256 ^ w) 256, Nat.mod_mul]

theorem leNat_leBytes_of_lt {width n : Nat} (h : n < 256 ^ width) :
    leNat (leBytes width n) = n := by
  rw [leNat_leBytes, Nat.mod_eq_of_lt h]

theorem leBytes_leNat (bs : List UInt8) : leBytes bs.length (leNat bs) = bs := by
  induction bs with
  | nil => rfl
  | cons b bs ih =>
    have hb : b.toNat < 256 := b.toNat_lt
    have hlow : UInt8.ofNat (b.toNat + 256 * leNat bs) = b := by
      apply UInt8.toNat_inj.mp
      have hmod : (UInt8.ofNat (b.toNat + 256 * leNat bs)).toNat =
          (b.toNat + 256 * leNat bs) % 256 :=
        UInt8.toNat_ofNat'
      omega
    have hhigh : (b.toNat + 256 * leNat bs) / 256 = leNat bs := by omega
    rw [List.length_cons, leNat, leBytes, hlow, hhigh, ih]

theorem leBytes_mod (width n : Nat) : leBytes width (n % 256 ^ width) = leBytes width n := by
  have h := leBytes_leNat (leBytes width n)
  rwa [leBytes_length, leNat_leBytes] at h

theorem beBytes_mod (width n : Nat) : beBytes width (n % 256 ^ width) = beBytes width n := by
  rw [beBytes, leBytes_mod, beBytes]

theorem leNat_append (a b : List UInt8) :
    leNat (a ++ b) = leNat a + 256 ^ a.length * leNat b := by
  induction a with
  | nil => simp [leNat]
  | cons x a ih =>
    rw [List.cons_append, leNat, ih, leNat, List.length_cons, pow_succ]
    ring

theorem leNat_replicate_zero (k : Nat) : leNat (List.replicate k 0) = 0 := by
  induction k with
  | zero => rfl
  | succ k ih => simp [List.replicate_succ, leNat, ih]

theorem leBytes_add (a b n : Nat) : leBytes (a + b) n = leBytes a n ++ leBytes b (n / 256 ^ a) := by
  induction a generalizing n with
  | zero => simp [leBytes]
  | succ a ih =>
    rw [Nat.add_right_comm, leBytes, ih, leBytes, List.cons_append, Nat.div_div_eq_div_mul,
      pow_succ, Nat.mul_comm]

theorem beBytes_add (a b n : Nat) : beBytes (a + b) n = beBytes b (n / 256 ^ a) ++ beBytes a n := by
  rw [beBytes, leBytes_add, List.reverse_append, beBytes, beBytes]

theorem leBytes_zero (width : Nat) : leBytes width 0 = List.replicate width 0 := by
  induction width with
  | zero => rfl
  | succ w ih => rw [leBytes, Nat.zero_div, ih, List.replicate_succ]; rfl

theorem beBytes_zero (width : Nat) : beBytes width 0 = List.replicate width 0 := by
  rw [beBytes, leBytes_zero, List.reverse_replicate]

theorem beNat_beBytes_of_lt {width n : Nat} (h : n < 256 ^ width) :
    beNat (beBytes width n) = n := by
  rw [beNat, beBytes, List.reverse_reverse, leNat_leBytes_of_lt h]

/-! ## 2. Copies into a block -/

/-- `memcpy (block + pos) src`, for a destination inside the block. -/
def overwrite {α : Type*} (block : List α) (pos : Nat) (src : List α) : List α :=
  block.take pos ++ src ++ block.drop (pos + src.length)

section
variable {α : Type*} {block src src' : List α} {pos : Nat}

theorem overwrite_length (h : pos + src.length ≤ block.length) :
    (overwrite block pos src).length = block.length := by
  simp only [overwrite, List.length_append, List.length_take, List.length_drop]
  omega

theorem le_overwrite_length (block : List α) (pos : Nat) (src : List α) :
    block.length ≤ (overwrite block pos src).length := by
  simp only [overwrite, List.length_append, List.length_take, List.length_drop]
  omega

theorem le_overwrite_length_of_le (src : List α) (h : pos ≤ block.length) :
    pos + src.length ≤ (overwrite block pos src).length := by
  simp only [overwrite, List.length_append, List.length_take, List.length_drop]
  omega

@[simp] theorem overwrite_nil : overwrite block pos [] = block := by
  simp [overwrite]

theorem overwrite_zero (block src : List α) :
    overwrite block 0 src = src ++ block.drop src.length := by
  simp [overwrite]

theorem overwrite_overwrite (h : pos ≤ block.length) :
    overwrite (overwrite block pos src) (pos + src.length) src' =
      overwrite block pos (src ++ src') := by
  have hl : (block.take pos).length = pos := by rw [List.length_take]; omega
  have htake : (block.take pos ++ src ++ block.drop (pos + src.length)).take (pos + src.length) =
      block.take pos ++ src :=
    List.take_left' (by rw [List.length_append, hl])
  have hdrop : (block.take pos ++ src ++ block.drop (pos + src.length)).drop
      (pos + src.length + src'.length) = block.drop (pos + (src ++ src').length) := by
    rw [← List.drop_drop, List.drop_left' (by rw [List.length_append, hl]), List.drop_drop,
      List.length_append, ← Nat.add_assoc]
  rw [overwrite, overwrite, overwrite, htake, hdrop]
  simp only [List.append_assoc]

theorem overwrite_overwrite_before (h : pos + src.length ≤ block.length) :
    overwrite (overwrite block (pos + src.length) src') pos src =
      overwrite block pos (src ++ src') := by
  have htake : (overwrite block (pos + src.length) src').take pos = block.take pos := by
    rw [overwrite, List.append_assoc, List.take_append_of_le_length
      (by rw [List.length_take]; omega), List.take_take, Nat.min_eq_left (by omega)]
  have hdrop : (overwrite block (pos + src.length) src').drop (pos + src.length) =
      src' ++ block.drop (pos + src.length + src'.length) := by
    rw [overwrite, List.append_assoc, List.drop_left' (by rw [List.length_take]; omega)]
  rw [overwrite, htake, hdrop, overwrite, List.length_append, Nat.add_assoc]
  simp only [List.append_assoc]

end

end Reasoning
