import LuaServer.Common.Text
import LuaServer.Reasoning.BlockStream
import Mathlib.Tactic.Common

/-!
# Base64 — `base64_encode` and `base64_decode`

The encoder takes three bytes at a time and the decoder four characters, up to the first that is not
of the alphabet.  Texts are shorter than `2 ^ 31`, where its `int` still counts them.
-/

open Reasoning

namespace LuaServer

/-! ## 1. Characters -/

def base64_chars : List UInt8 :=
  ascii "ABCDEFGHIJKLMNOPQRSTUVWXYZ" ++ ascii "abcdefghijklmnopqrstuvwxyz" ++
    ascii "0123456789+/"

/-- In the locale of C. -/
def isalnum (c : UInt8) : Bool :=
  (48 ≤ c && c ≤ 57) || (65 ≤ c && c ≤ 90) || (97 ≤ c && c ≤ 122)

def is_base64 (c : UInt8) : Bool := isalnum c || c == 43 || c == 47

def base64Char (value : UInt8) : UInt8 := base64_chars.getD value.toNat 0

/-- `base64_chars.find`; `npos` is 255 as an `unsigned char`. -/
def base64Find (c : UInt8) : UInt8 :=
  match base64_chars.idxOf? c with
  | some i => UInt8.ofNat i
  | none => 255

/-! ## 2. The two functions -/

/-- `char_array_4` from `char_array_3`. -/
def quad (a b c : UInt8) : List UInt8 :=
  [(a &&& 0xfc) >>> 2, ((a &&& 0x03) <<< 4) + ((b &&& 0xf0) >>> 4),
    ((b &&& 0x0f) <<< 2) + ((c &&& 0xc0) >>> 6), c &&& 0x3f]

/-- `char_array_3` from `char_array_4`. -/
def trio (a b c d : UInt8) : List UInt8 :=
  [(a <<< 2) + ((b &&& 0x30) >>> 4), ((b &&& 0xf) <<< 4) + ((c &&& 0x3c) >>> 2),
    ((c &&& 0x3) <<< 6) + d]

/-- The characters of `char_array_3`. -/
def encodeGroup (array : List UInt8) : List UInt8 :=
  (quad (array.getD 0 0) (array.getD 1 0) (array.getD 2 0)).map base64Char

/-- The bytes of `char_array_4`. -/
def decodeGroup (array : List UInt8) : List UInt8 :=
  trio (base64Find (array.getD 0 0)) (base64Find (array.getD 1 0)) (base64Find (array.getD 2 0))
    (base64Find (array.getD 3 0))

/-- Behind the loop of `base64_encode`: what is left of `char_array_3` is filled up with NULs. -/
def encodeRest (array : List UInt8) : List UInt8 :=
  if array = [] then []
  else (encodeGroup (array ++ List.replicate (3 - array.length) 0)).take (array.length + 1) ++
    List.replicate (3 - array.length) 61

/-- Behind the loop of `base64_decode`. -/
def decodeRest (array : List UInt8) : List UInt8 :=
  if array = [] then []
  else (decodeGroup (array ++ List.replicate (4 - array.length) 0)).take (array.length - 1)

/-- `in_len` is an `unsigned int`: on fewer than `2 ^ 32` bytes. -/
def base64_encode (bytes_to_encode : List UInt8) : List UInt8 :=
  let r := feedAll 3 (fun ret array => ret ++ encodeGroup array) ([], []) bytes_to_encode
  r.1 ++ encodeRest r.2

/-- `in_` is an `int`: on texts of fewer than `2 ^ 31` characters. -/
def base64_decode (encoded_string : List UInt8) : List UInt8 :=
  let r := feedAll 4 (fun ret array => ret ++ decodeGroup array) ([], [])
    (encoded_string.takeWhile fun c => c != 61 && is_base64 c)
  r.1 ++ decodeRest r.2

/-! ## 3. Groups -/

/-- The code of the character at a place of the alphabet. -/
def charCode (i : Nat) : Nat :=
  if i < 26 then i + 65 else if i < 52 then i + 71 else if i < 62 then i - 4
  else if i = 62 then 43 else 47

theorem base64_chars_eq :
    base64_chars = (List.range 64).map fun i => UInt8.ofNat (charCode i) := by
  decide +kernel

theorem charCode_lt (i : Nat) : charCode i < 256 := by
  rw [charCode]
  split_ifs <;> omega

theorem charCode_inj {i j : Nat} (hi : i < 64) (hj : j < 64) (h : charCode i = charCode j) :
    i = j := by
  rw [charCode, charCode] at h
  split_ifs at h <;> omega

theorem base64Char_toNat {v : UInt8} (h : v.toNat < 64) :
    (base64Char v).toNat = charCode v.toNat := by
  have hlen : v.toNat < (List.range 64).length := by
    rw [List.length_range]
    exact h
  rw [base64Char, base64_chars_eq, List.getD_eq_getElem?_getD, List.getElem?_map,
    List.getElem?_eq_getElem hlen, List.getElem_range]
  exact UInt8.toNat_ofNat_of_lt' (charCode_lt _)

theorem base64Find_eq {c : UInt8} {i : Nat} (hi : i < 64) (h : charCode i = c.toNat) :
    base64Find c = UInt8.ofNat i := by
  have hat : ∀ j, (hj : j < base64_chars.length) →
      (base64_chars[j]).toNat = charCode j := by
    intro j hj
    simp only [base64_chars_eq, List.getElem_map, List.getElem_range]
    exact UInt8.toNat_ofNat_of_lt' (charCode_lt _)
  have hlen : base64_chars.length = 64 := by
    rw [base64_chars_eq, List.length_map, List.length_range]
  have hfind : base64_chars.idxOf? c = some i := by
    refine List.idxOf?_eq_some_iff.mpr ⟨by omega, ?_, fun j hji heq => ?_⟩
    · rw [← UInt8.toNat_inj, hat, h]
    · -- no earlier place has the same code
      have hj := hat j (by omega)
      rw [heq, ← h] at hj
      exact absurd (charCode_inj hi (by omega) hj) (by omega)
  rw [base64Find, hfind]

theorem is_base64_iff (c : UInt8) : is_base64 c = true ↔ ∃ i < 64, charCode i = c.toNat := by
  simp only [is_base64, isalnum, Bool.or_eq_true, Bool.and_eq_true, decide_eq_true_eq, beq_iff_eq,
    UInt8.le_iff_toNat_le, ← UInt8.toNat_inj, UInt8.toNat_ofNat]
  constructor
  · rintro ((((h | h) | h) | h) | h)
    · exact ⟨c.toNat + 4, by omega, by rw [charCode]; split_ifs <;> omega⟩
    · exact ⟨c.toNat - 65, by omega, by rw [charCode]; split_ifs <;> omega⟩
    · exact ⟨c.toNat - 71, by omega, by rw [charCode]; split_ifs <;> omega⟩
    · exact ⟨62, by omega, h.symm⟩
    · exact ⟨63, by omega, h.symm⟩
  · rintro ⟨i, hi, h⟩
    rw [← h, charCode]
    split_ifs <;> omega

theorem base64Find_base64Char (v : UInt8) (h : v.toNat < 64) : base64Find (base64Char v) = v := by
  rw [base64Find_eq h (base64Char_toNat h).symm, UInt8.ofNat_toNat]

theorem is_base64_base64Char (v : UInt8) (h : v.toNat < 64) : is_base64 (base64Char v) = true :=
  (is_base64_iff _).mpr ⟨v.toNat, h, (base64Char_toNat h).symm⟩

theorem base64Find_lt (c : UInt8) (hc : is_base64 c = true) : (base64Find c).toNat < 64 := by
  obtain ⟨i, hi, h⟩ := (is_base64_iff c).mp hc
  have hsize : i < 256 := Nat.lt_trans hi (by decide)
  rw [base64Find_eq hi h, UInt8.toNat_ofNat_of_lt' hsize]
  exact hi

theorem base64Char_base64Find (c : UInt8) (hc : is_base64 c = true) :
    base64Char (base64Find c) = c := by
  obtain ⟨i, hi, h⟩ := (is_base64_iff c).mp hc
  have hsize : i < 256 := Nat.lt_trans hi (by decide)
  have htoNat : (UInt8.ofNat i).toNat = i := UInt8.toNat_ofNat_of_lt' hsize
  rw [base64Find_eq hi h, ← UInt8.toNat_inj, base64Char_toNat (by omega), htoNat, h]

/-- The loop of the decoder goes on. -/
def inAlphabet (c : UInt8) : Bool := c != 61 && is_base64 c

theorem inAlphabet_iff (c : UInt8) : inAlphabet c = true ↔ is_base64 c = true := by
  rw [inAlphabet, Bool.and_eq_true, bne_iff_ne, and_iff_right_iff_imp]
  rintro hc rfl
  exact absurd hc (by decide)

theorem mask_encode : ∀ n < 256,
    (n &&& 0xfc) >>> 2 = n / 4 ∧ (n &&& 0x03) <<< 4 % 256 = n % 4 * 16 ∧
      (n &&& 0xf0) >>> 4 = n / 16 ∧ (n &&& 0x0f) <<< 2 % 256 = n % 16 * 4 ∧
      (n &&& 0xc0) >>> 6 = n / 64 ∧ n &&& 0x3f = n % 64 := by
  decide +kernel

theorem mask_decode : ∀ n < 256,
    n <<< 2 % 256 = n * 4 % 256 ∧ (n &&& 0x30) >>> 4 = n / 16 % 4 ∧
      (n &&& 0xf) <<< 4 % 256 = n % 16 * 16 ∧ (n &&& 0x3c) >>> 2 = n / 4 % 16 ∧
      (n &&& 0x3) <<< 6 % 256 = n % 4 * 64 := by
  decide +kernel

/-- The masks and shifts of both directions on the values of the bytes. -/
theorem masks (x : UInt8) :
    ((x &&& 0xfc) >>> 2).toNat = x.toNat / 4 ∧ ((x &&& 0x03) <<< 4).toNat = x.toNat % 4 * 16 ∧
      ((x &&& 0xf0) >>> 4).toNat = x.toNat / 16 ∧ ((x &&& 0x0f) <<< 2).toNat = x.toNat % 16 * 4 ∧
      ((x &&& 0xc0) >>> 6).toNat = x.toNat / 64 ∧ (x &&& 0x3f).toNat = x.toNat % 64 :=
  mask_encode x.toNat x.toNat_lt

theorem masks' (x : UInt8) :
    (x <<< 2).toNat = x.toNat * 4 % 256 ∧ ((x &&& 0x30) >>> 4).toNat = x.toNat / 16 % 4 ∧
      ((x &&& 0xf) <<< 4).toNat = x.toNat % 16 * 16 ∧
      ((x &&& 0x3c) >>> 2).toNat = x.toNat / 4 % 16 ∧
      ((x &&& 0x3) <<< 6).toNat = x.toNat % 4 * 64 :=
  mask_decode x.toNat x.toNat_lt

section
variable {a b c w x y z : UInt8}

theorem quad_eq_iff : quad a b c = [w, x, y, z] ↔
    w.toNat = a.toNat / 4 ∧ x.toNat = a.toNat % 4 * 16 + b.toNat / 16 ∧
      y.toNat = b.toNat % 16 * 4 + c.toNat / 64 ∧ z.toNat = c.toNat % 64 := by
  have ha := a.toNat_lt
  have hb := b.toNat_lt
  have hc := c.toNat_lt
  obtain ⟨ha₁, ha₂, -, -, -, -⟩ := masks a
  obtain ⟨-, -, hb₃, hb₄, -, -⟩ := masks b
  obtain ⟨-, -, -, -, hc₅, hc₆⟩ := masks c
  rw [quad]
  simp only [List.cons.injEq, and_true, ← UInt8.toNat_inj, UInt8.toNat_add, ha₁, ha₂, hb₃, hb₄,
    hc₅, hc₆]
  omega

theorem trio_eq_iff : trio w x y z = [a, b, c] ↔
    a.toNat = w.toNat % 64 * 4 + x.toNat / 16 % 4 ∧
      b.toNat = x.toNat % 16 * 16 + y.toNat / 4 % 16 ∧
      c.toNat = (y.toNat % 4 * 64 + z.toNat) % 256 := by
  have ha := a.toNat_lt
  have hb := b.toNat_lt
  have hc := c.toNat_lt
  obtain ⟨hw, -, -, -, -⟩ := masks' w
  obtain ⟨-, hx₂, hx₃, -, -⟩ := masks' x
  obtain ⟨-, -, -, hy₄, hy₅⟩ := masks' y
  rw [trio]
  simp only [List.cons.injEq, and_true, ← UInt8.toNat_inj, UInt8.toNat_add, hw, hx₂, hx₃, hy₄, hy₅]
  omega

/-- Four characters of the alphabet for three bytes, which the decoder reads back. -/
theorem encodeGroup_eq (a b c : UInt8) : ∃ w x y z : UInt8,
    encodeGroup [a, b, c] = [base64Char w, base64Char x, base64Char y, base64Char z] ∧
      (w.toNat < 64 ∧ x.toNat < 64 ∧ y.toNat < 64 ∧ z.toNat < 64) ∧
      w.toNat = a.toNat / 4 ∧ x.toNat = a.toNat % 4 * 16 + b.toNat / 16 ∧
      y.toNat = b.toNat % 16 * 4 + c.toNat / 64 ∧ z.toNat = c.toNat % 64 := by
  obtain ⟨w, x, y, z, h⟩ : ∃ w x y z, quad a b c = [w, x, y, z] := ⟨_, _, _, _, rfl⟩
  obtain ⟨hw, hx, hy, hz⟩ := quad_eq_iff.mp h
  have ha := a.toNat_lt
  have hb := b.toNat_lt
  have hc := c.toNat_lt
  refine ⟨w, x, y, z, ?_, ?_, hw, hx, hy, hz⟩
  · show (quad a b c).map base64Char = _
    rw [h]
    rfl
  · omega

/-- Three bytes for four characters of the alphabet, which the encoder writes again. -/
theorem decodeGroup_eq (w x y z : UInt8) : ∃ a b c : UInt8,
    decodeGroup [w, x, y, z] = [a, b, c] ∧
      a.toNat = (base64Find w).toNat % 64 * 4 + (base64Find x).toNat / 16 % 4 ∧
      b.toNat = (base64Find x).toNat % 16 * 16 + (base64Find y).toNat / 4 % 16 ∧
      c.toNat = ((base64Find y).toNat % 4 * 64 + (base64Find z).toNat) % 256 := by
  obtain ⟨a, b, c, h⟩ : ∃ a b c, decodeGroup [w, x, y, z] = [a, b, c] := ⟨_, _, _, rfl⟩
  exact ⟨a, b, c, h, trio_eq_iff.mp h⟩

end

/-! ## 4. Groups and what is left -/

/-- `base64_decode` of characters that are all of the alphabet. -/
def decodeChars (s : List UInt8) : List UInt8 :=
  (blocks 4 s).flatMap decodeGroup ++ decodeRest (afterBlocks 4 s)

theorem base64_encode_eq (bytes : List UInt8) : base64_encode bytes =
    (blocks 3 bytes).flatMap encodeGroup ++ encodeRest (afterBlocks 3 bytes) := by
  rw [base64_encode, feedAll_flatMap (by decide)]

theorem base64_decode_eq (s : List UInt8) :
    base64_decode s = decodeChars (s.takeWhile inAlphabet) := by
  rw [base64_decode, feedAll_flatMap (by decide)]
  rfl

theorem base64_encode_short {bytes : List UInt8} (h : bytes.length < 3) :
    base64_encode bytes = encodeRest bytes := by
  rw [base64_encode_eq, blocks_short h, afterBlocks_short h]
  rfl

theorem base64_encode_append {b bytes : List UInt8} (hb : b.length = 3) :
    base64_encode (b ++ bytes) = encodeGroup b ++ base64_encode bytes := by
  rw [base64_encode_eq, blocks_append (by decide) hb, afterBlocks_append (by decide) hb,
    List.flatMap_cons, List.append_assoc, ← base64_encode_eq]

theorem decodeChars_short {s : List UInt8} (h : s.length < 4) : decodeChars s = decodeRest s := by
  rw [decodeChars, blocks_short h, afterBlocks_short h]
  rfl

theorem decodeChars_append {g s : List UInt8} (hg : g.length = 4) :
    decodeChars (g ++ s) = decodeGroup g ++ decodeChars s := by
  rw [decodeChars, blocks_append (by decide) hg, afterBlocks_append (by decide) hg,
    List.flatMap_cons, List.append_assoc, ← decodeChars]

theorem takeWhile_alphabet {g : List UInt8} (hg : ∀ c ∈ g, is_base64 c = true)
    (s : List UInt8) : (g ++ s).takeWhile inAlphabet = g ++ s.takeWhile inAlphabet :=
  List.takeWhile_append_of_pos fun c hc => (inAlphabet_iff c).mpr (hg c hc)

/-- The decoder reads a group of characters of the alphabet, and then the rest. -/
theorem base64_decode_append {g s : List UInt8} (hg : g.length = 4)
    (hall : ∀ c ∈ g, is_base64 c = true) :
    base64_decode (g ++ s) = decodeGroup g ++ base64_decode s := by
  rw [base64_decode_eq, takeWhile_alphabet hall, decodeChars_append hg, ← base64_decode_eq]

/-- The decoder stops at what is not of the alphabet. -/
theorem base64_decode_stop {g s : List UInt8} (hg : g.length < 4)
    (hall : ∀ c ∈ g, is_base64 c = true) (hs : s.takeWhile inAlphabet = []) :
    base64_decode (g ++ s) = decodeRest g := by
  rw [base64_decode_eq, takeWhile_alphabet hall, hs, List.append_nil, decodeChars_short hg]

theorem is_base64_chars (vs : List UInt8) (h : ∀ v ∈ vs, v.toNat < 64) :
    ∀ c ∈ vs.map base64Char, is_base64 c = true := by
  intro c hc
  obtain ⟨v, hv, rfl⟩ := List.mem_map.mp hc
  exact is_base64_base64Char v (h v hv)

/-! ## 5. Round trips -/

/-- A single byte at the end. -/
theorem encodeRest_one (a : UInt8) : ∃ w x : UInt8,
    encodeRest [a] = [base64Char w, base64Char x, 61, 61] ∧ (w.toNat < 64 ∧ x.toNat < 64) ∧
      w.toNat = a.toNat / 4 ∧ x.toNat = a.toNat % 4 * 16 := by
  obtain ⟨w, x, y, z, heq, ⟨hw, hx, -, -⟩, hwv, hxv, -, -⟩ := encodeGroup_eq a 0 0
  refine ⟨w, x, ?_, ⟨hw, hx⟩, hwv, hxv⟩
  show (encodeGroup [a, 0, 0]).take 2 ++ [61, 61] = _
  rw [heq]
  rfl

theorem encodeRest_two (a b : UInt8) : ∃ w x y : UInt8,
    encodeRest [a, b] = [base64Char w, base64Char x, base64Char y, 61] ∧
      (w.toNat < 64 ∧ x.toNat < 64 ∧ y.toNat < 64) ∧ w.toNat = a.toNat / 4 ∧
      x.toNat = a.toNat % 4 * 16 + b.toNat / 16 ∧ y.toNat = b.toNat % 16 * 4 := by
  obtain ⟨w, x, y, z, heq, ⟨hw, hx, hy, -⟩, hwv, hxv, hyv, -⟩ := encodeGroup_eq a b 0
  refine ⟨w, x, y, ?_, ⟨hw, hx, hy⟩, hwv, hxv, hyv⟩
  show (encodeGroup [a, b, 0]).take 3 ++ [61] = _
  rw [heq]
  rfl

/-- Two characters at the end are a single byte. -/
theorem base64_decode_two {w x : UInt8} (h : is_base64 w = true ∧ is_base64 x = true)
    (rest : List UInt8) : ∃ a : UInt8, base64_decode (w :: x :: 61 :: rest) = [a] ∧
      a.toNat = (base64Find w).toNat % 64 * 4 + (base64Find x).toNat / 16 % 4 := by
  obtain ⟨a, b, c, hdec, ha, -, -⟩ := decodeGroup_eq w x 0 0
  have hstop : base64_decode ([w, x] ++ 61 :: rest) = decodeRest [w, x] :=
    base64_decode_stop (Nat.lt_of_sub_eq_succ rfl) (by simp [h]) rfl
  refine ⟨a, hstop.trans ?_, ha⟩
  show (decodeGroup [w, x, 0, 0]).take 1 = [a]
  rw [hdec]
  rfl

theorem base64_decode_three {w x y : UInt8}
    (h : is_base64 w = true ∧ is_base64 x = true ∧ is_base64 y = true) (rest : List UInt8) :
    ∃ a b : UInt8, base64_decode (w :: x :: y :: 61 :: rest) = [a, b] ∧
      a.toNat = (base64Find w).toNat % 64 * 4 + (base64Find x).toNat / 16 % 4 ∧
      b.toNat = (base64Find x).toNat % 16 * 16 + (base64Find y).toNat / 4 % 16 := by
  obtain ⟨a, b, c, hdec, ha, hb, -⟩ := decodeGroup_eq w x y 0
  have hstop : base64_decode ([w, x, y] ++ 61 :: rest) = decodeRest [w, x, y] :=
    base64_decode_stop (Nat.lt_of_sub_eq_succ rfl) (by simp [h]) rfl
  refine ⟨a, b, hstop.trans ?_, ha, hb⟩
  show (decodeGroup [w, x, y, 0]).take 2 = [a, b]
  rw [hdec]
  rfl

theorem decode_encodeRest {bytes rest : List UInt8} (h : bytes.length < 3)
    (hrest : rest.takeWhile inAlphabet = []) :
    base64_decode (encodeRest bytes ++ rest) = bytes := by
  match bytes with
  | [] =>
    exact base64_decode_stop (g := []) (by decide) (fun _ hc => absurd hc List.not_mem_nil) hrest
  | [a] =>
    obtain ⟨w, x, henc, ⟨hw, hx⟩, hwv, hxv⟩ := encodeRest_one a
    obtain ⟨a', hdec, ha⟩ := base64_decode_two
      ⟨is_base64_base64Char w hw, is_base64_base64Char x hx⟩ (61 :: rest)
    rw [base64Find_base64Char w hw, base64Find_base64Char x hx] at ha
    have haa : a' = a := UInt8.toNat_inj.mp (by omega)
    rw [henc, ← haa]
    exact hdec
  | [a, b] =>
    obtain ⟨w, x, y, henc, ⟨hw, hx, hy⟩, hwv, hxv, hyv⟩ := encodeRest_two a b
    obtain ⟨a', b', hdec, ha, hb⟩ := base64_decode_three ⟨is_base64_base64Char w hw,
      is_base64_base64Char x hx, is_base64_base64Char y hy⟩ rest
    rw [base64Find_base64Char w hw, base64Find_base64Char x hx] at ha
    rw [base64Find_base64Char x hx, base64Find_base64Char y hy] at hb
    have hlt := b.toNat_lt
    have haa : a' = a := UInt8.toNat_inj.mp (by omega)
    have hbb : b' = b := UInt8.toNat_inj.mp (by omega)
    rw [henc, ← haa, ← hbb]
    exact hdec
  | _ :: _ :: _ :: _ =>
    simp only [List.length_cons] at h
    omega

/-- What has been encoded is decoded, whatever follows it that is not of the alphabet. -/
theorem base64_decode_encode (bytes : List UInt8) {rest : List UInt8}
    (hrest : rest.takeWhile inAlphabet = []) :
    base64_decode (base64_encode bytes ++ rest) = bytes := by
  induction bytes using block_induction (show 0 < 3 by decide) with
  | short bytes hshort =>
    rw [base64_encode_short hshort]
    exact decode_encodeRest hshort hrest
  | block g bytes hg ih =>
    obtain ⟨a, b, c, rfl⟩ := List.length_eq_three.mp hg
    obtain ⟨w, x, y, z, heq, ⟨hw, hx, hy, hz⟩, hwv, hxv, hyv, hzv⟩ := encodeGroup_eq a b c
    have hall : ∀ v ∈ encodeGroup [a, b, c], is_base64 v = true := by
      rw [heq]
      exact is_base64_chars [w, x, y, z] (by simp [hw, hx, hy, hz])
    have hlen : (encodeGroup [a, b, c]).length = 4 := by
      rw [heq]
      rfl
    rw [base64_encode_append hg, List.append_assoc, base64_decode_append hlen hall, ih, heq]
    obtain ⟨a', b', c', hdec, ha, hb, hc⟩ :=
      decodeGroup_eq (base64Char w) (base64Char x) (base64Char y) (base64Char z)
    rw [base64Find_base64Char w hw, base64Find_base64Char x hx] at ha
    rw [base64Find_base64Char x hx, base64Find_base64Char y hy] at hb
    rw [base64Find_base64Char y hy, base64Find_base64Char z hz] at hc
    have hla := a.toNat_lt
    have hlb := b.toNat_lt
    have hlc := c.toNat_lt
    have haa : a' = a := UInt8.toNat_inj.mp (by omega)
    have hbb : b' = b := UInt8.toNat_inj.mp (by omega)
    have hcc : c' = c := UInt8.toNat_inj.mp (by omega)
    rw [hdec, haa, hbb, hcc]

theorem base64_decode_encode_hi :
    base64_decode (base64_encode [104, 105] ++ [13, 10]) = [104, 105] :=
  base64_decode_encode [104, 105] (by decide +kernel)

/-- Groups of characters of the alphabet; the last may stand for one byte or two, and then its unused
bits are 0. -/
inductive IsEncoded : List UInt8 → Prop
  | nil : IsEncoded []
  | one (w x : UInt8) (h : is_base64 w = true ∧ is_base64 x = true)
      (hunused : (base64Find x).toNat % 16 = 0) : IsEncoded [w, x, 61, 61]
  | two (w x y : UInt8) (h : is_base64 w = true ∧ is_base64 x = true ∧ is_base64 y = true)
      (hunused : (base64Find y).toNat % 4 = 0) : IsEncoded [w, x, y, 61]
  | group (w x y z : UInt8) {s : List UInt8}
      (h : is_base64 w = true ∧ is_base64 x = true ∧ is_base64 y = true ∧ is_base64 z = true)
      (hs : IsEncoded s) : IsEncoded (w :: x :: y :: z :: s)

theorem encodeRest_isEncoded {bytes : List UInt8} (h : bytes.length < 3) :
    IsEncoded (encodeRest bytes) := by
  match bytes with
  | [] => exact .nil
  | [a] =>
    obtain ⟨w, x, henc, ⟨hw, hx⟩, -, hxv⟩ := encodeRest_one a
    rw [henc]
    refine .one _ _ ⟨is_base64_base64Char w hw, is_base64_base64Char x hx⟩ ?_
    rw [base64Find_base64Char x hx]
    omega
  | [a, b] =>
    obtain ⟨w, x, y, henc, ⟨hw, hx, hy⟩, -, -, hyv⟩ := encodeRest_two a b
    rw [henc]
    refine .two _ _ _ ⟨is_base64_base64Char w hw, is_base64_base64Char x hx,
      is_base64_base64Char y hy⟩ ?_
    rw [base64Find_base64Char y hy]
    omega
  | _ :: _ :: _ :: _ =>
    simp only [List.length_cons] at h
    omega

theorem base64_encode_isEncoded (bytes : List UInt8) : IsEncoded (base64_encode bytes) := by
  induction bytes using block_induction (show 0 < 3 by decide) with
  | short bytes hshort =>
    rw [base64_encode_short hshort]
    exact encodeRest_isEncoded hshort
  | block g bytes hg ih =>
    obtain ⟨a, b, c, rfl⟩ := List.length_eq_three.mp hg
    obtain ⟨w, x, y, z, heq, ⟨hw, hx, hy, hz⟩, -⟩ := encodeGroup_eq a b c
    rw [base64_encode_append hg, heq]
    exact .group _ _ _ _ ⟨is_base64_base64Char w hw, is_base64_base64Char x hx,
      is_base64_base64Char y hy, is_base64_base64Char z hz⟩ ih

/-- Four characters for three bytes or fewer. -/
theorem base64_encode_length (bytes : List UInt8) :
    (base64_encode bytes).length = 4 * ((bytes.length + 2) / 3) := by
  induction bytes using block_induction (show 0 < 3 by decide) with
  | short bytes hshort =>
    rw [base64_encode_short hshort]
    match bytes with
    | [] => rfl
    | [a] =>
      obtain ⟨w, x, henc, -⟩ := encodeRest_one a
      rw [henc]
      simp
    | [a, b] =>
      obtain ⟨w, x, y, henc, -⟩ := encodeRest_two a b
      rw [henc]
      simp
    | _ :: _ :: _ :: _ =>
      simp only [List.length_cons] at hshort
      omega
  | block g bytes hg ih =>
    obtain ⟨a, b, c, rfl⟩ := List.length_eq_three.mp hg
    obtain ⟨w, x, y, z, heq, -⟩ := encodeGroup_eq a b c
    rw [base64_encode_append hg, heq, List.length_append, List.length_append, hg, ih]
    simp only [List.length_cons, List.length_nil]
    omega

theorem base64Char_of_toNat {v c : UInt8} (hc : is_base64 c = true)
    (h : v.toNat = (base64Find c).toNat) : base64Char v = c := by
  rw [UInt8.toNat_inj.mp h]
  exact base64Char_base64Find c hc

theorem IsEncoded.encode_decode {s : List UInt8} (h : IsEncoded s) :
    base64_encode (base64_decode s) = s := by
  induction h with
  | nil => rfl
  | one w x h hunused =>
    have hw := base64Find_lt w h.1
    have hx := base64Find_lt x h.2
    obtain ⟨a, hdec, ha⟩ := base64_decode_two h [61]
    obtain ⟨w', x', henc, -, hw', hx'⟩ := encodeRest_one a
    rw [hdec, base64_encode_short (Nat.lt_of_sub_eq_succ rfl), henc,
      base64Char_of_toNat h.1 (by omega), base64Char_of_toNat h.2 (by omega)]
  | two w x y h hunused =>
    have hw := base64Find_lt w h.1
    have hx := base64Find_lt x h.2.1
    have hy := base64Find_lt y h.2.2
    obtain ⟨a, b, hdec, ha, hb⟩ := base64_decode_three h []
    obtain ⟨w', x', y', henc, -, hw', hx', hy'⟩ := encodeRest_two a b
    rw [hdec, base64_encode_short (Nat.lt_of_sub_eq_succ rfl), henc,
      base64Char_of_toNat h.1 (by omega), base64Char_of_toNat h.2.1 (by omega),
      base64Char_of_toNat h.2.2 (by omega)]
  | group w x y z h hs ih =>
    have hw := base64Find_lt w h.1
    have hx := base64Find_lt x h.2.1
    have hy := base64Find_lt y h.2.2.1
    have hz := base64Find_lt z h.2.2.2
    obtain ⟨a, b, c, hdec, ha, hb, hc⟩ := decodeGroup_eq w x y z
    obtain ⟨w', x', y', z', henc, -, hw', hx', hy', hz'⟩ := encodeGroup_eq a b c
    rename_i s
    rw [show w :: x :: y :: z :: s = [w, x, y, z] ++ s from rfl,
      base64_decode_append rfl (by simp [h]), hdec, base64_encode_append rfl, ih, henc,
      base64Char_of_toNat h.1 (by omega), base64Char_of_toNat h.2.1 (by omega),
      base64Char_of_toNat h.2.2.1 (by omega), base64Char_of_toNat h.2.2.2 (by omega)]

/-- The texts that decoding and encoding bring back are those that the encoder writes. -/
theorem base64_encode_decode_iff (s : List UInt8) :
    base64_encode (base64_decode s) = s ↔ IsEncoded s := by
  constructor
  · intro h
    rw [← h]
    exact base64_encode_isEncoded _
  · exact IsEncoded.encode_decode

end LuaServer
