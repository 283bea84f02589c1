import LuaServer.Reasoning.BlockStream
import Mathlib.Tactic.Common

/-!
# Sha1 — the class `SHA1`

An object takes the message in pieces, processes a block of 64 bytes when it is full, and pads the
message when the digest is first asked for.
-/

namespace LuaServer

/-- The word buffers `A` to `E`, and the digest `H[0]` to `H[4]`. -/
structure Sha1Words where
  A : UInt32
  B : UInt32
  C : UInt32
  D : UInt32
  E : UInt32
deriving DecidableEq, Repr

structure SHA1 where
  H : Sha1Words
  lengthLow : UInt32
  lengthHigh : UInt32
  messageBlock : Vector UInt8 64
  messageBlockIndex : Nat
  computed : Bool
  corrupted : Bool

namespace SHA1

/-! ## 1. A block -/

def circularShift (bits word : UInt32) : UInt32 :=
  ((word <<< bits) &&& 0xFFFFFFFF) ||| ((word &&& 0xFFFFFFFF) >>> (32 - bits))

/-- `W[t]` for the first 16 words. -/
def blockWord (messageBlock : Vector UInt8 64) (t : Fin 16) : UInt32 :=
  ((messageBlock.get ⟨t * 4, by omega⟩).toUInt32 <<< 24) |||
    ((messageBlock.get ⟨t * 4 + 1, by omega⟩).toUInt32 <<< 16) |||
    ((messageBlock.get ⟨t * 4 + 2, by omega⟩).toUInt32 <<< 8) |||
    (messageBlock.get ⟨t * 4 + 3, by omega⟩).toUInt32

/-- The loop that makes `W[t]` from the words before it, with the number of words left to make. -/
def extendWords : Nat → List UInt32 → List UInt32
  | 0, W => W
  | left + 1, W =>
    let t := W.length
    extendWords left (W ++
      [circularShift 1 (W.getD (t - 3) 0 ^^^ W.getD (t - 8) 0 ^^^ W.getD (t - 14) 0 ^^^
        W.getD (t - 16) 0)])

/-- One of the four loops over 20 words, with its function of `B`, `C` and `D`. -/
def rounds (f : UInt32 → UInt32 → UInt32 → UInt32) (K : UInt32) (W : List UInt32)
    (words : Sha1Words) : Sha1Words :=
  W.foldl (fun s w =>
    { A := (circularShift 5 s.A + f s.B s.C s.D + s.E + w + K) &&& 0xFFFFFFFF
      B := s.A
      C := circularShift 30 s.B
      D := s.C
      E := s.D }) words

/-- What `ProcessMessageBlock` makes of `H`. -/
def processBlock (H : Sha1Words) (messageBlock : Vector UInt8 64) : Sha1Words :=
  let W := extendWords 64 ((List.finRange 16).map (blockWord messageBlock))
  let s := rounds (fun B C D => (B &&& C) ||| (~~~B &&& D)) 0x5A827999 (W.take 20) H
  let s := rounds (fun B C D => B ^^^ C ^^^ D) 0x6ED9EBA1 ((W.drop 20).take 20) s
  let s := rounds (fun B C D => (B &&& C) ||| (B &&& D) ||| (C &&& D)) 0x8F1BBCDC
    ((W.drop 40).take 20) s
  let s := rounds (fun B C D => B ^^^ C ^^^ D) 0xCA62C1D6 ((W.drop 60).take 20) s
  { A := (H.A + s.A) &&& 0xFFFFFFFF
    B := (H.B + s.B) &&& 0xFFFFFFFF
    C := (H.C + s.C) &&& 0xFFFFFFFF
    D := (H.D + s.D) &&& 0xFFFFFFFF
    E := (H.E + s.E) &&& 0xFFFFFFFF }

variable (sha : SHA1)

def processMessageBlock : SHA1 :=
  { sha with H := processBlock sha.H sha.messageBlock, messageBlockIndex := 0 }

/-! ## 2. A message -/

def reset : SHA1 :=
  { sha with
    lengthLow := 0
    lengthHigh := 0
    messageBlockIndex := 0
    H := ⟨0x67452301, 0xEFCDAB89, 0x98BADCFE, 0x10325476, 0xC3D2E1F0⟩
    computed := false
    corrupted := false }

/-- `Message_Block[Message_Block_Index++] = byte`. -/
def put (byte : UInt8) : SHA1 :=
  { sha with
    messageBlock := sha.messageBlock.setIfInBounds sha.messageBlockIndex byte
    messageBlockIndex := sha.messageBlockIndex + 1 }

/-- `Length_Low += 8`, with the carry. -/
def countByte : SHA1 :=
  let low := (sha.lengthLow + 8) &&& 0xFFFFFFFF
  let high := if low = 0 then (sha.lengthHigh + 1) &&& 0xFFFFFFFF else sha.lengthHigh
  { sha with
    lengthLow := low
    lengthHigh := high
    corrupted := if low = 0 ∧ high = 0 then true else sha.corrupted }

/-- One turn of the loop of `Input`. -/
def inputByte (byte : UInt8) : SHA1 :=
  let sha := (sha.put byte).countByte
  if sha.messageBlockIndex = 64 then sha.processMessageBlock else sha

/-- The loop of `Input`. -/
def inputLoop : SHA1 → List UInt8 → SHA1
  | sha, [] => sha
  | sha, byte :: rest => if sha.corrupted then sha else inputLoop (sha.inputByte byte) rest

/-- `Input`. -/
def input (message_array : List UInt8) : SHA1 :=
  if message_array = [] then sha
  else if sha.computed ∨ sha.corrupted then { sha with corrupted := true }
  else sha.inputLoop message_array

/-- `operator<<` with a text: the bytes before the first NUL, one at a time. -/
def shiftIn (text : List UInt8) : SHA1 :=
  (text.takeWhile (· ≠ 0)).foldl (fun sha c => sha.input [c]) sha

/-- `while (Message_Block_Index < stop) Message_Block[Message_Block_Index++] = 0`, with the number of
turns. -/
def putZeros : Nat → SHA1 → SHA1
  | 0, sha => sha
  | left + 1, sha => putZeros left (sha.put 0)

/-- `Message_Block[i] = byte`. -/
def setByte (i : Nat) (byte : UInt8) : SHA1 :=
  { sha with messageBlock := sha.messageBlock.setIfInBounds i byte }

def byteOf (word shift : UInt32) : UInt8 := ((word >>> shift) &&& 0xFF).toUInt8

/-- The message length as the last 8 bytes of the block. -/
def storeLength : SHA1 :=
  (((((((sha.setByte 56 (byteOf sha.lengthHigh 24)).setByte 57 (byteOf sha.lengthHigh 16)).setByte 58
    (byteOf sha.lengthHigh 8)).setByte 59 (byteOf sha.lengthHigh 0)).setByte 60
    (byteOf sha.lengthLow 24)).setByte 61 (byteOf sha.lengthLow 16)).setByte 62
    (byteOf sha.lengthLow 8)).setByte 63 (byteOf sha.lengthLow 0)

def padMessage : SHA1 :=
  let sha :=
    if sha.messageBlockIndex > 55 then
      let sha := sha.put 0x80
      let sha := (putZeros (64 - sha.messageBlockIndex) sha).processMessageBlock
      putZeros (56 - sha.messageBlockIndex) sha
    else
      let sha := sha.put 0x80
      putZeros (56 - sha.messageBlockIndex) sha
  sha.storeLength.processMessageBlock

def setComputed : SHA1 := { sha with computed := true }

/-- The message is padded when the digest is asked for the first time. -/
def finish : SHA1 := if sha.computed then sha else sha.padMessage.setComputed

/-- The digest, or none where the source returns `false`. -/
def result : SHA1 × Option Sha1Words :=
  if sha.corrupted then (sha, none) else (sha.finish, some sha.finish.H)

/-- What the members are before `Reset` is of no account. -/
def construct (memory : SHA1) : SHA1 := memory.reset

/-! ## 3. What is left alone -/

section
variable (sha : SHA1) (i : Nat) (byte : UInt8)

@[simp] theorem put_H : (sha.put byte).H = sha.H := by
  rw [put]

@[simp] theorem put_lengthLow : (sha.put byte).lengthLow = sha.lengthLow := by
  rw [put]

@[simp] theorem put_lengthHigh : (sha.put byte).lengthHigh = sha.lengthHigh := by
  rw [put]

@[simp] theorem put_messageBlockIndex :
    (sha.put byte).messageBlockIndex = sha.messageBlockIndex + 1 := by
  rw [put]

@[simp] theorem put_computed : (sha.put byte).computed = sha.computed := by
  rw [put]

@[simp] theorem put_corrupted : (sha.put byte).corrupted = sha.corrupted := by
  rw [put]

@[simp] theorem countByte_H : sha.countByte.H = sha.H := by
  rw [countByte]

@[simp] theorem countByte_messageBlock : sha.countByte.messageBlock = sha.messageBlock := by
  rw [countByte]

@[simp] theorem countByte_messageBlockIndex :
    sha.countByte.messageBlockIndex = sha.messageBlockIndex := by
  rw [countByte]

@[simp] theorem countByte_computed : sha.countByte.computed = sha.computed := by
  rw [countByte]

@[simp] theorem processMessageBlock_lengthLow :
    sha.processMessageBlock.lengthLow = sha.lengthLow := by
  rw [processMessageBlock]

@[simp] theorem processMessageBlock_lengthHigh :
    sha.processMessageBlock.lengthHigh = sha.lengthHigh := by
  rw [processMessageBlock]

@[simp] theorem processMessageBlock_messageBlockIndex :
    sha.processMessageBlock.messageBlockIndex = 0 := by
  rw [processMessageBlock]

@[simp] theorem processMessageBlock_computed :
    sha.processMessageBlock.computed = sha.computed := by
  rw [processMessageBlock]

@[simp] theorem processMessageBlock_corrupted :
    sha.processMessageBlock.corrupted = sha.corrupted := by
  rw [processMessageBlock]

@[simp] theorem setComputed_H : sha.setComputed.H = sha.H := by
  rw [setComputed]

@[simp] theorem setComputed_computed : sha.setComputed.computed = true := by
  rw [setComputed]

@[simp] theorem setComputed_corrupted : sha.setComputed.corrupted = sha.corrupted := by
  rw [setComputed]

@[simp] theorem setByte_H : (sha.setByte i byte).H = sha.H := by
  rw [setByte]

@[simp] theorem setByte_corrupted : (sha.setByte i byte).corrupted = sha.corrupted := by
  rw [setByte]

@[simp] theorem storeLength_H : sha.storeLength.H = sha.H := by
  simp only [storeLength, setByte_H]

@[simp] theorem storeLength_corrupted : sha.storeLength.corrupted = sha.corrupted := by
  simp only [storeLength, setByte_corrupted]

end

end SHA1

inductive SHA1Call
  | reset
  | input (message_array : List UInt8)
  | result

/-- A call, with what `Result` returns. -/
def SHA1.call (sha : SHA1) : SHA1Call → SHA1 × List (Option Sha1Words)
  | .reset => (sha.reset, [])
  | .input message_array => (sha.input message_array, [])
  | .result => (sha.result.1, [sha.result.2])

end LuaServer
