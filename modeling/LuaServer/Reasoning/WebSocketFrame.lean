import LuaServer.Reasoning.Bytes

/-!
# WebSocketFrame — the frame format

One byte with FIN, three reserved bits and the opcode; one byte with the MASK bit and a length in
seven bits, of which 126 and 127 announce a length of two or eight bytes in network order; the
masking key, if MASK is set; the payload, masked.  `decode` is the reference decoder.
-/

namespace Reasoning

/-! ## 1. Masking -/

structure MaskKey where
  bytes : List UInt8
  length_eq : bytes.length = 4
deriving DecidableEq

namespace MaskKey

def keyByte (k : MaskKey) (i : Nat) : UInt8 := k.bytes.getD (i % 4) 0

def apply (k : MaskKey) (bs : List UInt8) : List UInt8 := bs.mapIdx fun i b => b ^^^ k.keyByte i

@[simp] theorem apply_length (k : MaskKey) (bs : List UInt8) : (k.apply bs).length = bs.length :=
  List.length_mapIdx

-- the key is its own inverse
theorem apply_apply (k : MaskKey) (bs : List UInt8) : k.apply (k.apply bs) = bs := by
  rw [apply, apply, List.mapIdx_mapIdx]
  apply List.ext_getElem
  · rw [List.length_mapIdx]
  · intro i h _
    rw [List.getElem_mapIdx, Function.comp_apply, UInt8.xor_assoc, UInt8.xor_self, UInt8.xor_zero]

end MaskKey

/-! ## 2. Frames -/

structure WebSocketFrame where
  first : UInt8
  key : Option MaskKey
  payload : List UInt8
deriving DecidableEq

namespace WebSocketFrame

def opcode (f : WebSocketFrame) : Nat := f.first.toNat % 16

/-- The length in seven bits. -/
def shortLength (n : Nat) : Nat := if n ≤ 125 then n else if n ≤ 65535 then 126 else 127

def extendedLength (n : Nat) : List UInt8 :=
  if n ≤ 125 then [] else if n ≤ 65535 then beBytes 2 n else beBytes 8 n

def maskBit (key : Option MaskKey) : Nat := if key.isSome then 128 else 0

def keyBytes : Option MaskKey → List UInt8
  | none => []
  | some k => k.bytes

def mask : Option MaskKey → List UInt8 → List UInt8
  | none, bs => bs
  | some k, bs => k.apply bs

def second (f : WebSocketFrame) : UInt8 :=
  UInt8.ofNat (maskBit f.key + shortLength f.payload.length)

/-- What stands between the second byte and the payload. -/
def extra (f : WebSocketFrame) : List UInt8 :=
  extendedLength f.payload.length ++ keyBytes f.key

def encode (f : WebSocketFrame) : List UInt8 :=
  f.first :: f.second :: (f.extra ++ mask f.key f.payload)

/-- The first `n` bytes and the rest, if there are so many. -/
def splitOff (n : Nat) (bs : List UInt8) : Option (List UInt8 × List UInt8) :=
  if n ≤ bs.length then some (bs.take n, bs.drop n) else none

def decodeLength (short : Nat) (bs : List UInt8) : Option (Nat × List UInt8) :=
  if short = 126 then (splitOff 2 bs).map fun r => (beNat r.1, r.2)
  else if short = 127 then (splitOff 8 bs).map fun r => (beNat r.1, r.2)
  else some (short, bs)

def decodeKey (masked : Bool) (bs : List UInt8) : Option (Option MaskKey × List UInt8) :=
  if masked then
    if h : 4 ≤ bs.length then
      some (some ⟨bs.take 4, by rw [List.length_take]; omega⟩, bs.drop 4)
    else none
  else some (none, bs)

/-- The frame at the front of the input and what follows it. -/
def decode : List UInt8 → Option (WebSocketFrame × List UInt8)
  | first :: second :: bs => do
    let (n, bs) ← decodeLength (second.toNat % 128) bs
    let (key, bs) ← decodeKey (decide (128 ≤ second.toNat)) bs
    let (payload, bs) ← splitOff n bs
    return (⟨first, key, mask key payload⟩, bs)
  | _ => none

/-! ## 3. Decoding what was encoded -/

theorem shortLength_lt (n : Nat) : shortLength n < 128 := by
  unfold shortLength
  split
  · omega
  · split <;> decide

theorem second_toNat (f : WebSocketFrame) :
    f.second.toNat = maskBit f.key + shortLength f.payload.length := by
  have hshort := shortLength_lt f.payload.length
  have hbit : maskBit f.key ≤ 128 := by
    unfold maskBit
    split <;> decide
  have hof : f.second.toNat = (maskBit f.key + shortLength f.payload.length) % 256 :=
    UInt8.toNat_ofNat'
  omega

theorem second_short (f : WebSocketFrame) :
    f.second.toNat % 128 = shortLength f.payload.length := by
  have hshort := shortLength_lt f.payload.length
  rw [second_toNat, maskBit]
  split <;> omega

theorem second_masked (f : WebSocketFrame) : 128 ≤ f.second.toNat ↔ f.key.isSome = true := by
  have hshort := shortLength_lt f.payload.length
  rw [second_toNat, maskBit]
  split <;> rename_i h
  · exact iff_of_true (by omega) h
  · exact iff_of_false (by omega) h

@[simp] theorem mask_length (key : Option MaskKey) (bs : List UInt8) :
    (mask key bs).length = bs.length := by
  cases key with
  | none => rfl
  | some k => exact k.apply_length bs

theorem mask_mask (key : Option MaskKey) (bs : List UInt8) : mask key (mask key bs) = bs := by
  cases key with
  | none => rfl
  | some k => exact k.apply_apply bs

theorem encode_append (f : WebSocketFrame) (rest : List UInt8) :
    f.encode ++ rest = f.first :: f.second :: (f.extra ++ (mask f.key f.payload ++ rest)) := by
  rw [encode, List.cons_append, List.cons_append, List.append_assoc]

theorem splitOff_append (a b : List UInt8) : splitOff a.length (a ++ b) = some (a, b) := by
  have hle : a.length ≤ (a ++ b).length := by
    rw [List.length_append]
    omega
  rw [splitOff, if_pos hle, List.take_left, List.drop_left]

theorem decodeLength_append {n : Nat} (h : n < 2 ^ 64) (bs : List UInt8) :
    decodeLength (shortLength n) (extendedLength n ++ bs) = some (n, bs) := by
  unfold decodeLength shortLength extendedLength
  by_cases h125 : n ≤ 125
  · simp only [if_pos h125, List.nil_append]
    rw [if_neg (by omega), if_neg (by omega)]
  by_cases hword : n ≤ 65535
  · have hsplit := splitOff_append (beBytes 2 n) bs
    rw [beBytes_length] at hsplit
    simp only [if_neg h125, if_pos hword, if_true, hsplit, Option.map_some]
    rw [beNat_beBytes_of_lt (by omega)]
  · have hsplit := splitOff_append (beBytes 8 n) bs
    rw [beBytes_length] at hsplit
    simp only [if_neg h125, if_neg hword, if_true, hsplit, Option.map_some]
    rw [if_neg (by decide), beNat_beBytes_of_lt (by omega)]

theorem decodeKey_append (key : Option MaskKey) (bs : List UInt8) :
    decodeKey key.isSome (keyBytes key ++ bs) = some (key, bs) := by
  cases key with
  | none => rfl
  | some k =>
    have hle : 4 ≤ (k.bytes ++ bs).length := by
      rw [List.length_append, k.length_eq]
      omega
    show decodeKey true (k.bytes ++ bs) = _
    rw [decodeKey, if_pos rfl, dif_pos hle]
    simp only [List.take_left' k.length_eq, List.drop_left' k.length_eq]

theorem decode_encode (f : WebSocketFrame) (h : f.payload.length < 2 ^ 64) (rest : List UInt8) :
    decode (f.encode ++ rest) = some (f, rest) := by
  have hmasked : decide (128 ≤ f.second.toNat) = f.key.isSome := by
    cases hk : f.key.isSome
    · rw [decide_eq_false_iff_not, second_masked, hk]
      decide
    · rw [decide_eq_true_eq, second_masked, hk]
  have hsplit := splitOff_append (mask f.key f.payload) rest
  rw [mask_length] at hsplit
  rw [encode_append, extra, List.append_assoc, decode, second_short, hmasked,
    decodeLength_append h]
  simp only [Option.bind_eq_bind, Option.bind_some, decodeKey_append, hsplit, mask_mask]
  rfl

/-- Input without a mask is one frame when the length it announces is that of what follows. -/
theorem decode_unmasked_iff {first second : UInt8} {bs body : List UInt8} {n : Nat}
    (hmask : second.toNat < 128) (hlen : decodeLength (second.toNat % 128) bs = some (n, body)) :
    decode (first :: second :: bs) = some (⟨first, none, body⟩, []) ↔ n = body.length := by
  have hkey : decodeKey (decide (128 ≤ second.toNat)) body = some (none, body) := by
    rw [decide_eq_false (by omega)]
    rfl
  rw [decode, hlen]
  simp only [Option.bind_eq_bind, Option.bind_some, hkey]
  -- a length that is too short leaves a rest, and one that is too long leaves nothing to decode
  by_cases hle : n ≤ body.length
  · rw [splitOff, if_pos hle]
    simp only [Option.bind_some, mask]
    constructor
    · intro h
      have hrest : body.drop n = [] := congrArg Prod.snd (Option.some.inj h)
      have := List.drop_eq_nil_iff.mp hrest
      omega
    · rintro rfl
      rw [List.take_length, List.drop_length]
      rfl
  · rw [splitOff, if_neg hle]
    exact iff_of_false (by simp) (by omega)

end WebSocketFrame

end Reasoning
