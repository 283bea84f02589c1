import LuaServer.Common.Text
import LuaServer.Reasoning.Bisection
import LuaServer.Reasoning.Bytes
import LuaServer.Reasoning.MachineInt
import Mathlib.Data.Int.Order.Basic

/-!
# Tools — a cipher, a formatter and a search

`encrypt` goes as far as `strlen` of the buffer, which a byte that meets its own value in the key cuts
short.  `format` hands one `va_list` to two functions.  `binarySearch` adds its bounds as `int`s.
-/

open Reasoning

namespace LuaServer.Tools

/-! ## 1. `encrypt` -/

/-- None reads past the block. -/
def strlen (mem : List UInt8) : Option Nat := (cString mem).map List.length

/-- `*p ^= pKey[i % keyLen]` with `p` at index `i`; none is a division by zero or an access past a
block. -/
def xorAt (pKey : List UInt8) (keyLen : Nat) (buf : List UInt8) (i : Nat) : Option (List UInt8) :=
  if keyLen = 0 then none
  else pKey[i % keyLen]?.bind fun k => buf[i]?.map fun b => buf.set i (b ^^^ k)

/-- The buffer afterwards. -/
def encrypt (buf key : List UInt8) : Option (List UInt8) :=
  (strlen buf).bind fun n => (strlen key).bind fun k =>
    (List.range (toUint32 n)).foldlM (xorAt key (toUint32 k)) buf

/-- What `encrypt` makes of the first `n` bytes. -/
def cipher (key : List UInt8) (keyLen n : Nat) (buf : List UInt8) : List UInt8 :=
  buf.mapIdx fun i b => if i < n then b ^^^ key.getD (i % keyLen) 0 else b

section
variable {key : List UInt8} {keyLen n : Nat}

theorem getElem?_cipher (buf : List UInt8) (i : Nat) :
    (cipher key keyLen n buf)[i]? =
      buf[i]?.map fun b => if i < n then b ^^^ key.getD (i % keyLen) 0 else b :=
  List.getElem?_mapIdx

@[simp] theorem length_cipher (buf : List UInt8) :
    (cipher key keyLen n buf).length = buf.length :=
  List.length_mapIdx

theorem cipher_append {text : List UInt8} (hn : n ≤ text.length) (rest : List UInt8) :
    cipher key keyLen n (text ++ rest) = cipher key keyLen n text ++ rest := by
  unfold cipher
  rw [List.mapIdx_append]
  apply congrArg
  apply List.ext_getElem?
  intro i
  rw [List.getElem?_mapIdx]
  simp only [if_neg (show ¬ i + text.length < n by omega), Option.map_id']

theorem cipher_cipher (buf : List UInt8) :
    cipher key keyLen n (cipher key keyLen n buf) = buf := by
  apply List.ext_getElem?
  intro i
  rw [getElem?_cipher, getElem?_cipher, Option.map_map]
  by_cases hi : i < n
  · have hxor : ∀ b k : UInt8, b ^^^ k ^^^ k = b := by
      intro b k
      rw [UInt8.xor_assoc, UInt8.xor_self, UInt8.xor_zero]
    simp only [Function.comp_def, if_pos hi, hxor, Option.map_id']
  · simp only [Function.comp_def, if_neg hi, Option.map_id']

theorem xorAt_cipher (hpos : 0 < keyLen) (hle : keyLen ≤ key.length) {buf : List UInt8}
    (hn : n < buf.length) :
    xorAt key keyLen (cipher key keyLen n buf) n = some (cipher key keyLen (n + 1) buf) := by
  have hk : n % keyLen < key.length := Nat.lt_of_lt_of_le (Nat.mod_lt n hpos) hle
  have hb : (cipher key keyLen n buf)[n]? = some buf[n] := by
    rw [getElem?_cipher, List.getElem?_eq_getElem hn, Option.map_some, if_neg (Nat.lt_irrefl n)]
  rw [xorAt, if_neg (by omega), List.getElem?_eq_getElem hk, Option.bind_some, hb, Option.map_some]
  apply congrArg
  apply List.ext_getElem?
  intro i
  rw [List.getElem?_set, getElem?_cipher, getElem?_cipher, length_cipher]
  by_cases hi : n = i
  · subst hi
    simp [hn, List.getElem?_eq_getElem hk]
  · rw [if_neg hi]
    simp only [show i < n + 1 ↔ i < n by omega]

/-- The loop as far as index `n`. -/
theorem foldlM_xorAt {buf : List UInt8} (hkey : n = 0 ∨ 0 < keyLen ∧ keyLen ≤ key.length)
    (hn : n ≤ buf.length) :
    (List.range n).foldlM (xorAt key keyLen) buf = some (cipher key keyLen n buf) := by
  induction n with
  | zero =>
    change some buf = _
    apply congrArg
    apply List.ext_getElem?
    intro i
    rw [getElem?_cipher]
    simp
  | succ n ih =>
    obtain ⟨hpos, hle⟩ := hkey.resolve_left (Nat.succ_ne_zero n)
    rw [List.range_succ, List.foldlM_append, ih (.inr ⟨hpos, hle⟩) (by omega)]
    change (xorAt key keyLen (cipher key keyLen n buf) n).bind some = _
    rw [xorAt_cipher hpos hle (by omega), Option.bind_some]

end

/-- No byte that is encrypted has the value of its byte of the key, of which there is one. -/
def KeyDiffers (text key : List UInt8) : Prop :=
  ∀ i < toUint32 text.length,
    toUint32 key.length ≠ 0 ∧ text[i]? ≠ key[i % toUint32 key.length]?

instance (text key : List UInt8) : Decidable (KeyDiffers text key) :=
  inferInstanceAs (Decidable (∀ i < _, _))

section
variable {text word : List UInt8} (hword : 0 ∉ word)

theorem strlen_append (h : 0 ∉ text) (rest : List UInt8) :
    strlen (text ++ 0 :: rest) = some text.length := by
  rw [strlen, cString_append h, Option.map_some]

include hword

theorem encrypt_eq_some {buf : List UInt8} {len : Nat} (hlen : strlen buf = some len)
    (hle : len ≤ buf.length) (h : toUint32 len = 0 ∨ toUint32 word.length ≠ 0)
    (rest : List UInt8) :
    encrypt buf (word ++ 0 :: rest) =
      some (cipher (word ++ 0 :: rest) (toUint32 word.length) (toUint32 len) buf) := by
  have hkey := toUint32_le word.length
  have hn := toUint32_le len
  rw [encrypt, hlen, Option.bind_some, strlen_append hword, Option.bind_some]
  apply foldlM_xorAt
  · rw [List.length_append]
    omega
  · omega

theorem encrypt_eq_none {buf : List UInt8} {len : Nat} (hlen : strlen buf = some len)
    (hpos : toUint32 len ≠ 0) (hzero : toUint32 word.length = 0) (rest : List UInt8) :
    encrypt buf (word ++ 0 :: rest) = none := by
  obtain ⟨n, hn⟩ := Nat.exists_eq_succ_of_ne_zero hpos
  rw [encrypt, hlen, Option.bind_some, strlen_append hword, Option.bind_some, hn, hzero,
    List.range_succ_eq_map, List.foldlM_cons]
  rfl

omit hword in
theorem getElem?_key {keyLen : Nat} (hpos : keyLen ≠ 0) (hle : keyLen ≤ word.length)
    (rest : List UInt8) (i : Nat) :
    word[i % keyLen]? = some ((word ++ 0 :: rest).getD (i % keyLen) 0) := by
  have hlt : i % keyLen < word.length :=
    Nat.lt_of_lt_of_le (Nat.mod_lt i (Nat.pos_of_ne_zero hpos)) hle
  rw [List.getD_eq_getElem?_getD, List.getElem?_append_left hlt, List.getElem?_eq_getElem hlt,
    Option.getD_some]

omit hword in
/-- Without such a byte the text has no zero afterwards. -/
theorem zero_notMem_cipher (htext : 0 ∉ text) (h : KeyDiffers text word) (rest : List UInt8) :
    0 ∉ cipher (word ++ 0 :: rest) (toUint32 word.length) (toUint32 text.length) text := by
  intro hmem
  obtain ⟨i, hi⟩ := List.mem_iff_getElem?.mp hmem
  rw [getElem?_cipher] at hi
  obtain ⟨b, hb, hzero⟩ := Option.map_eq_some_iff.mp hi
  by_cases hlt : i < toUint32 text.length
  · obtain ⟨hpos, hne⟩ := h i hlt
    rw [if_pos hlt, UInt8.xor_eq_zero_iff] at hzero
    rw [getElem?_key hpos (toUint32_le _) rest, hb, hzero] at hne
    exact hne rfl
  · rw [if_neg hlt] at hzero
    subst hzero
    exact htext (List.mem_of_getElem? hb)

end

/-- The text ends at the latest where there is a zero. -/
theorem strlen_le {mem : List UInt8} {len i : Nat} (hlen : strlen mem = some len)
    (hi : mem[i]? = some 0) : len ≤ i := by
  obtain ⟨s, hs, rfl⟩ := Option.map_eq_some_iff.mp hlen
  obtain rfl := Option.some.inj (Option.ite_none_right_eq_some.mp hs).2
  apply Nat.le_of_not_lt
  intro hlt
  have hprefix := List.takeWhile_prefix (fun c : UInt8 => decide (c ≠ 0)) (l := mem)
  have hget := hprefix.getElem hlt
  have hzero : (mem.takeWhile fun c => decide (c ≠ 0))[i] = 0 := by
    rw [hget]
    exact Option.some.inj ((List.getElem?_eq_getElem _).symm.trans hi)
  have hmem := List.mem_takeWhile_imp (List.getElem_mem hlt)
  rw [hzero] at hmem
  exact absurd hmem (by decide)

theorem strlen_le_length {mem : List UInt8} {len : Nat} (hlen : strlen mem = some len) :
    len ≤ mem.length := by
  obtain ⟨s, hs, rfl⟩ := Option.map_eq_some_iff.mp hlen
  obtain rfl := Option.some.inj (Option.ite_none_right_eq_some.mp hs).2
  exact (List.takeWhile_prefix _).length_le

/-- A pass does not come to a zero. -/
theorem encrypt_keeps_zero {word buf buf' : List UInt8} (hword : 0 ∉ word)
    (hpos : toUint32 word.length ≠ 0) {i : Nat} (hi : buf[i]? = some 0) {rest : List UInt8}
    (h : encrypt buf (word ++ 0 :: rest) = some buf') : buf'[i]? = some 0 := by
  obtain ⟨len, hlen, -⟩ := Option.bind_eq_some_iff.mp h
  have hle := strlen_le hlen hi
  have hn := toUint32_le len
  rw [encrypt_eq_some hword hlen (strlen_le_length hlen) (.inr hpos) rest] at h
  cases h
  rw [getElem?_cipher, hi, Option.map_some, if_neg (by omega)]

/-- Two passes with one key restore the buffer exactly if no byte meets its own value in the key. -/
theorem encrypt_twice_iff {text word : List UInt8} (htext : 0 ∉ text) (hword : 0 ∉ word)
    (behind rest : List UInt8) :
    (encrypt (text ++ 0 :: behind) (word ++ 0 :: rest)).bind (encrypt · (word ++ 0 :: rest)) =
        some (text ++ 0 :: behind) ↔
      KeyDiffers text word := by
  have hlen := strlen_append htext behind
  have hle := strlen_le_length hlen
  have hn := toUint32_le text.length
  constructor
  · intro h i hi
    by_cases hpos : toUint32 word.length = 0
    · rw [encrypt_eq_none hword hlen (by omega) hpos rest] at h
      cases h
    refine ⟨hpos, fun heq => ?_⟩
    -- where the byte has its own value in the key, the first pass leaves a zero
    have hkey := getElem?_key hpos (toUint32_le _) rest i
    have hlt : i < text.length := by omega
    have hzero : (cipher (word ++ 0 :: rest) (toUint32 word.length) (toUint32 text.length)
        (text ++ 0 :: behind))[i]? = some 0 := by
      rw [getElem?_cipher, List.getElem?_append_left hlt, heq, hkey, Option.map_some, if_pos hi,
        UInt8.xor_self]
    rw [encrypt_eq_some hword hlen hle (.inr hpos) rest, Option.bind_some] at h
    have hkept := encrypt_keeps_zero hword hpos hzero h
    rw [List.getElem?_append_left hlt] at hkept
    exact htext (List.mem_of_getElem? hkept)
  · intro h
    have hkey : toUint32 text.length = 0 ∨ toUint32 word.length ≠ 0 := by
      by_cases hzero : toUint32 text.length = 0
      · exact .inl hzero
      · exact .inr (h 0 (Nat.pos_of_ne_zero hzero)).1
    have hlen' := strlen_append (zero_notMem_cipher htext h rest) behind
    rw [length_cipher] at hlen'
    rw [encrypt_eq_some hword hlen hle hkey rest, cipher_append hn, Option.bind_some,
      encrypt_eq_some hword hlen' (strlen_le_length hlen') hkey rest, ← cipher_append hn,
      cipher_cipher]

/-- The key is shorter than the text and has a letter of it, at another place. -/
theorem encrypt_twice_iff_attack :
    ((encrypt (ascii "attack" ++ 0 :: [7]) (ascii "key" ++ 0 :: [])).bind
        (encrypt · (ascii "key" ++ 0 :: [])) = some (ascii "attack" ++ 0 :: [7]) ↔
      KeyDiffers (ascii "attack") (ascii "key")) ∧
      KeyDiffers (ascii "attack") (ascii "key") :=
  ⟨encrypt_twice_iff (by decide) (by decide) [7] [], by decide⟩

/-- The first letter is that of the key: the second pass finds an empty text. -/
theorem encrypt_twice_loses :
    ∃ text word : List UInt8, 0 ∉ text ∧ 0 ∉ word ∧ word ≠ [] ∧
      (encrypt (text ++ 0 :: []) (word ++ 0 :: [])).bind (encrypt · (word ++ 0 :: [])) ≠
        some (text ++ 0 :: []) :=
  ⟨ascii "kilo", ascii "key", by decide, by decide, by decide, by decide⟩

/-! ## 2. `format` -/

/-- The arguments of a `va_list` that are left.  None is its indeterminate value: a function that it
was handed to has taken an argument. -/
abbrev VaList : Type := Option (List (List UInt8))

/-- What a format prints.  Each `%s` takes an argument, a C string; no caller has another
conversion. -/
def printed : List UInt8 → List (List UInt8) → Option (List UInt8)
  | [], _ => some []
  | [c], _ => if c = 37 then none else some [c]
  | c :: d :: fmt, args =>
    if c = 37 then
      if d = 115 then
        match args with
        | [] => none
        | arg :: args => (printed fmt args).map (arg ++ ·)
      else none
    else (printed (d :: fmt) args).map (c :: ·)

/-- The text, and the list afterwards. -/
def vsprintf (fmt : List UInt8) (vl : VaList) : Option (List UInt8 × VaList) :=
  (printed fmt (vl.getD [])).map fun text => (text, if 37 ∈ fmt then none else vl)

/-- `std::string(s, n)` of an array; none reads past it. -/
def stringOf (s : List UInt8) (n : Nat) : Option (List UInt8) :=
  if n ≤ s.length then some (s.take n) else none

/-- The type of `format`. -/
abbrev Format : Type := List UInt8 → List (List UInt8) → Option (List UInt8)

def format (fmt : List UInt8) (args : List (List UInt8)) : Option (List UInt8) := do
  let (text, vl) ← vsprintf fmt (some args)
  -- `""` is an array of one byte
  let s ← stringOf (ascii "" ++ [0]) (text.length + 1)
  let (text, _) ← vsprintf fmt vl
  return overwrite s 0 (text ++ [0])

section
variable {text fmt : List UInt8} {args : List (List UInt8)}

theorem printed_cons {c : UInt8} (h : c ≠ 37) :
    printed (c :: fmt) args = (printed fmt args).map (c :: ·) := by
  cases fmt with
  | nil =>
    simp only [printed, if_neg h]
    rfl
  | cons d fmt => simp only [printed, if_neg h]

theorem printed_append (h : 37 ∉ text) :
    printed (text ++ fmt) args = (printed fmt args).map (text ++ ·) := by
  induction text with
  | nil => simp
  | cons c text ih =>
    obtain ⟨hc, htext⟩ := List.ne_and_not_mem_of_not_mem_cons h
    rw [List.cons_append, printed_cons (Ne.symm hc), ih htext, Option.map_map]
    rfl

theorem printed_argument (arg : List UInt8) :
    printed (37 :: 115 :: fmt) (arg :: args) = (printed fmt args).map (arg ++ ·) := by
  simp only [printed, if_pos]

theorem printed_text (h : 37 ∉ text) : printed text args = some text := by
  have hprinted : printed (text ++ []) args = (printed [] args).map (text ++ ·) := printed_append h
  rwa [List.append_nil, printed, Option.map_some, List.append_nil] at hprinted

theorem printed_nil (h : 37 ∈ fmt) : printed fmt [] = none := by
  induction fmt with
  | nil => cases h
  | cons c fmt ih =>
    by_cases hc : c = 37
    · cases fmt with
      | nil => simp only [printed, if_pos hc]
      | cons d fmt => simp only [printed, if_pos hc, ite_self]
    · rw [printed_cons hc, ih ((List.mem_cons.mp h).resolve_left (Ne.symm hc)), Option.map_none]

/-- Only the empty format has a defined result: a conversion leaves no list for the second function,
and `""` has no bytes for any other text. -/
theorem format_eq (fmt : List UInt8) (args : List (List UInt8)) :
    format fmt args = if fmt = [] then some [0] else none := by
  by_cases hnil : fmt = []
  · rw [if_pos hnil, hnil]
    rfl
  rw [if_neg hnil]
  by_cases hmem : 37 ∈ fmt
  · cases hprinted : printed fmt args with
    | none => simp [format, vsprintf, hprinted]
    | some text => simp [format, vsprintf, hprinted, printed_nil hmem, hmem]
  · have hshort : stringOf (ascii "" ++ [0]) (fmt.length + 1) = none := by
      have hpos := List.length_pos_of_ne_nil hnil
      have hone : (ascii "" ++ [0]).length = 1 := rfl
      rw [stringOf, if_neg (by omega)]
    simp [format, vsprintf, printed_text hmem, hshort]

end

/-! ## 3. `binarySearch` -/

inductive SearchEnd
  | returned (index : Int)
  -- an index that is none of the array
  | outside
  -- out of fuel
  | unfinished
deriving DecidableEq

/-- `arr[index]`; none if the index is not one of the `len` elements. -/
def element (arr : List Int) (index : Int) : Option Int :=
  if index < 0 then none else arr[index.toNat]?

/-- The loop; the division is that of C. -/
def searchLoop (arr : List Int) (findX : Int) : Nat → Int → Int → SearchEnd
  | 0, _, _ => .unfinished
  | fuel + 1, left, right =>
    if left ≤ right then
      let middle := (toInt32 (left + right)).tdiv 2
      match element arr middle with
      | none => .outside
      | some value =>
        if findX = value then .returned middle
        else if findX > value then searchLoop arr findX fuel (toInt32 (middle + 1)) right
        else searchLoop arr findX fuel left (toInt32 (middle - 1))
    else .returned (-1)

/-- `len` is the number of elements. -/
def binarySearch (arr : List Int) (findX : Int) : SearchEnd :=
  searchLoop arr findX (arr.length + 1) 0 (toInt32 ((arr.length : Int) - 1))

/-- The search ends with an index that holds `findX`, or with -1 if there is none, and has read no
index outside the array. -/
def Finds (arr : List Int) (findX : Int) (e : SearchEnd) : Prop :=
  ∃ index, e = .returned index ∧
    (element arr index = some findX ∨ index = -1 ∧ findX ∉ arr)

section
variable {arr : List Int} {findX : Int} {lo hi fuel : Nat}

theorem element_natCast (arr : List Int) (i : Nat) : element arr i = arr[i]? := by
  rw [element, if_neg (by omega), Int.toNat_natCast]

theorem searchLoop_empty (hle : hi ≤ lo) :
    searchLoop arr findX (fuel + 1) lo ((hi : Int) - 1) = .returned (-1) := by
  rw [searchLoop, if_neg (by omega)]

/-- A turn whose sum fits. -/
theorem searchLoop_fits (hlt : lo < hi) (hsum : lo + (hi - 1) < 2 ^ 31) {value : Int}
    (hvalue : arr[(lo + (hi - 1)) / 2]? = some value) :
    searchLoop arr findX (fuel + 1) lo ((hi : Int) - 1) =
      if findX = value then .returned ((lo + (hi - 1)) / 2 : Nat)
      else if findX > value then
        searchLoop arr findX fuel ((lo + (hi - 1)) / 2 + 1 : Nat) ((hi : Int) - 1)
      else searchLoop arr findX fuel lo (((lo + (hi - 1)) / 2 : Nat) - 1) := by
  have hmiddle : (toInt32 ((lo : Int) + ((hi : Int) - 1))).tdiv 2 =
      ((lo + (hi - 1)) / 2 : Nat) := by
    rw [toInt32_of_bounds (by omega) (by omega), Int.tdiv_eq_ediv_of_nonneg (by omega)]
    omega
  have hnext : toInt32 (((lo + (hi - 1)) / 2 : Nat) + 1) = ((lo + (hi - 1)) / 2 + 1 : Nat) := by
    rw [toInt32_of_bounds] <;> omega
  have hprev : toInt32 (((lo + (hi - 1)) / 2 : Nat) - 1) =
      (((lo + (hi - 1)) / 2 : Nat) : Int) - 1 := by
    rw [toInt32_of_bounds] <;> omega
  rw [searchLoop, if_pos (by omega)]
  simp only [hmiddle, element_natCast, hvalue, hnext, hprev]

/-- A turn whose sum has wrapped. -/
theorem searchLoop_wraps (hlt : lo < hi) (hhi : hi < 2 ^ 31) (hsum : 2 ^ 31 ≤ lo + (hi - 1)) :
    searchLoop arr findX (fuel + 1) lo ((hi : Int) - 1) = .outside := by
  have hwrap : toInt32 ((lo : Int) + ((hi : Int) - 1)) = -((2 ^ 32 + 1 - lo - hi : Nat) : Int) := by
    unfold toInt32
    omega
  have hnone : element arr ((toInt32 ((lo : Int) + ((hi : Int) - 1))).tdiv 2) = none := by
    rw [hwrap, Int.neg_tdiv, Int.tdiv_eq_ediv_of_nonneg (by omega), element, if_pos (by omega)]
  rw [searchLoop, if_pos (by omega)]
  simp only [hnone]

theorem not_finds_outside : ¬ Finds arr findX .outside := by
  rintro ⟨index, h, -⟩
  cases h

/-- Below 2^30 no sum wraps. -/
theorem finds_of_small (hs : arr.Pairwise (· ≤ ·)) (h : Bracket arr findX lo hi)
    (hle : hi ≤ 2 ^ 30) (hfuel : hi - lo < fuel) :
    Finds arr findX (searchLoop arr findX fuel lo ((hi : Int) - 1)) := by
  induction fuel generalizing lo hi with
  | zero => omega
  | succ fuel ih =>
    by_cases hlt : lo < hi
    · have hin : (lo + (hi - 1)) / 2 < arr.length := by
        have := h.le_length
        omega
      have hvalue := List.getElem?_eq_getElem hin
      rw [searchLoop_fits hlt (by omega) hvalue]
      by_cases heq : findX = arr[(lo + (hi - 1)) / 2]
      · rw [if_pos heq]
        exact ⟨_, rfl, .inl (by rw [element_natCast, hvalue, heq])⟩
      rw [if_neg heq]
      by_cases hgt : findX > arr[(lo + (hi - 1)) / 2]
      · rw [if_pos hgt]
        exact ih (h.right hs hvalue hgt) hle (by omega)
      · have hless : findX < arr[(lo + (hi - 1)) / 2] := by omega
        rw [if_neg hgt]
        exact ih (h.left hs hvalue hless) (by omega) (by omega)
    · rw [searchLoop_empty (by omega)]
      exact ⟨-1, rfl, .inr ⟨rfl, h.not_mem (by omega)⟩⟩

/-- Of the last `e` elements the search always takes the later half until it comes to one that is not
smaller than `findX`; it comes to it below 2^30. -/
def MeetsLow (arr : List Int) (findX : Int) (e : Nat) : Prop :=
  ∃ k, arr.length - 1 - e / 2 ^ (k + 1) < 2 ^ 30 ∧
    ∃ value ∈ arr[arr.length - 1 - e / 2 ^ (k + 1)]?, findX ≤ value

theorem meetsLow_iff {e : Nat} :
    MeetsLow arr findX e ↔
      (arr.length - 1 - e / 2 < 2 ^ 30 ∧ ∃ value ∈ arr[arr.length - 1 - e / 2]?, findX ≤ value) ∨
        MeetsLow arr findX (e / 2) := by
  have hhalf : ∀ k, e / 2 / 2 ^ (k + 1) = e / 2 ^ (k + 1 + 1) := by
    intro k
    rw [Nat.div_div_eq_div_mul, ← Nat.pow_succ']
  constructor
  · rintro ⟨k, hk⟩
    cases k with
    | zero => exact .inl (by rwa [Nat.zero_add, Nat.pow_one] at hk)
    | succ k => exact .inr ⟨k, by rwa [hhalf]⟩
  · rintro (h | ⟨k, hk⟩)
    · exact ⟨0, by rwa [Nat.zero_add, Nat.pow_one]⟩
    · exact ⟨k + 1, by rwa [hhalf] at hk⟩

theorem not_meetsLow {e : Nat} (h : 2 ^ 30 ≤ arr.length - 1 - e / 2) : ¬ MeetsLow arr findX e := by
  rintro ⟨k, hlt, -⟩
  have hle : e / 2 ^ (k + 1) ≤ e / 2 := by
    rw [Nat.pow_succ', ← Nat.div_div_eq_div_mul]
    exact Nat.div_le_self _ _
  omega

/-- The search in the last `e` elements of a long array. -/
theorem finds_last_iff (hs : arr.Pairwise (· ≤ ·)) (hlen : arr.length < 2 ^ 31)
    (hlong : 2 ^ 30 < arr.length) {e : Nat} (he : e ≤ arr.length) (hlow : arr.length - e ≤ 2 ^ 30)
    (h : Bracket arr findX (arr.length - e) arr.length) (hfuel : e < fuel) :
    Finds arr findX (searchLoop arr findX fuel (arr.length - e : Nat) ((arr.length : Int) - 1)) ↔
      MeetsLow arr findX e := by
  induction fuel generalizing e with
  | zero => omega
  | succ fuel ih =>
    have hmiddle := middle_of_last (show 0 < e by omega) he
    by_cases hmid : arr.length - 1 - e / 2 < 2 ^ 30
    · have hvalue := List.getElem?_eq_getElem (show arr.length - 1 - e / 2 < arr.length by omega)
      have hmeets : findX ≤ arr[arr.length - 1 - e / 2] → MeetsLow arr findX e :=
        fun hle => meetsLow_iff.mpr (.inl ⟨hmid, _, hvalue, hle⟩)
      rw [searchLoop_fits (by omega) (by omega) (by rw [hmiddle]; exact hvalue), hmiddle]
      by_cases heq : findX = arr[arr.length - 1 - e / 2]
      · rw [if_pos heq]
        exact iff_of_true ⟨_, rfl, .inl (by rw [element_natCast, hvalue, heq])⟩ (hmeets heq.le)
      rw [if_neg heq]
      by_cases hgt : findX > arr[arr.length - 1 - e / 2]
      · have hnext : arr.length - 1 - e / 2 + 1 = arr.length - e / 2 := by omega
        have hright := h.right hs hvalue hgt
        rw [hnext] at hright
        rw [if_pos hgt, hnext, ih (by omega) (by omega) hright (by omega), meetsLow_iff (e := e)]
        apply Iff.symm
        apply or_iff_right
        rintro ⟨-, value, hv, hle⟩
        rw [hvalue] at hv
        cases hv
        omega
      · have hless : findX < arr[arr.length - 1 - e / 2] := by omega
        rw [if_neg hgt]
        exact iff_of_true (finds_of_small hs (h.left hs hvalue hless) (by omega) (by omega))
          (hmeets hless.le)
    · rw [searchLoop_wraps (by omega) hlen (by omega)]
      exact iff_of_false not_finds_outside (not_meetsLow (by omega))

theorem binarySearch_eq (hlen : arr.length < 2 ^ 31) :
    binarySearch arr findX =
      searchLoop arr findX (arr.length + 1) (0 : Nat) ((arr.length : Int) - 1) := by
  rw [binarySearch, toInt32_of_bounds (by omega) (by omega)]
  rfl

theorem binarySearch_finds_iff_long (hs : arr.Pairwise (· ≤ ·)) (hlen : arr.length < 2 ^ 31)
    (hlong : 2 ^ 30 < arr.length) :
    Finds arr findX (binarySearch arr findX) ↔ MeetsLow arr findX arr.length := by
  have hwhole : Bracket arr findX (arr.length - arr.length) arr.length := by
    rw [Nat.sub_self]
    exact Bracket.whole arr findX
  have hlast := finds_last_iff hs hlen hlong (Nat.le_refl _) (by omega) hwhole (Nat.lt_succ_self _)
  rw [Nat.sub_self] at hlast
  rw [binarySearch_eq hlen]
  exact hlast

end

/-- A search in a sorted array is right exactly if the array has at most 2^30 elements or the later
halves lead to an element that is not smaller than `findX` before they come to index 2^30. -/
theorem binarySearch_finds_iff {arr : List Int} (hs : arr.Pairwise (· ≤ ·))
    (hlen : arr.length < 2 ^ 31) (findX : Int) :
    Finds arr findX (binarySearch arr findX) ↔
      arr.length ≤ 2 ^ 30 ∨ MeetsLow arr findX arr.length := by
  by_cases hsmall : arr.length ≤ 2 ^ 30
  · refine iff_of_true ?_ (.inl hsmall)
    rw [binarySearch_eq hlen]
    exact finds_of_small hs (Bracket.whole arr findX) hsmall (by omega)
  · rw [or_iff_right hsmall]
    exact binarySearch_finds_iff_long hs hlen (by omega)

/-- Four elements, and one of them. -/
theorem binarySearch_finds_iff_four :
    (Finds [-3, 2, 2, 8] 8 (binarySearch [-3, 2, 2, 8] 8) ↔
      [-3, 2, 2, 8].length ≤ 2 ^ 30 ∨ MeetsLow [-3, 2, 2, 8] 8 [-3, 2, 2, 8].length) ∧
      binarySearch [-3, 2, 2, 8] 8 = .returned 3 :=
  ⟨binarySearch_finds_iff (by decide) (by decide) 8, by decide⟩

/-- The longest array, all of zeros, and the number 1: the second sum is 2^30 + 2^31 - 2. -/
theorem binarySearch_outside :
    (List.replicate (2 ^ 31 - 1) (0 : Int)).Pairwise (· ≤ ·) ∧
      (List.replicate (2 ^ 31 - 1) (0 : Int)).length < 2 ^ 31 ∧
      ¬ Finds (List.replicate (2 ^ 31 - 1) 0) 1
        (binarySearch (List.replicate (2 ^ 31 - 1) 0) 1) := by
  have hs : (List.replicate (2 ^ 31 - 1) (0 : Int)).Pairwise (· ≤ ·) :=
    List.pairwise_replicate.mpr (.inr (Int.le_refl 0))
  have hlen : (List.replicate (2 ^ 31 - 1) (0 : Int)).length = 2 ^ 31 - 1 := List.length_replicate
  refine ⟨hs, by omega, ?_⟩
  rw [binarySearch_finds_iff_long hs (by omega) (by omega)]
  rintro ⟨k, -, value, hvalue, hle⟩
  have hzero := List.eq_of_mem_replicate (List.mem_of_getElem? hvalue)
  omega

end LuaServer.Tools
