import LuaServer.Common.PacketGetters

/-!
# PacketValues — the typed writes of a packet, and what is read back

The `push` functions of `BasePacket` append a value at the write cursor: a number in the byte order
of the host, a text with a zero behind it.  What the getters of the same types read from there on is
what has been pushed.
-/

open Reasoning

namespace LuaServer

/-! ## 1. Values -/

/-- A value with the type it is pushed as; a `float` and a `double` by their bits. -/
inductive PacketValue
  | int8 (value : Int8)
  | uint8 (value : UInt8)
  | int16 (value : Int16)
  | uint16 (value : UInt16)
  | int32 (value : Int32)
  | uint32 (value : UInt32)
  | int64 (value : Int64)
  | uint64 (value : UInt64)
  | float (bits : UInt32)
  | double (bits : UInt64)
  | string (value : List UInt8) (no_zero : 0 ∉ value)

namespace PacketValue

/-- What the value adds to a packet. -/
def bytes : PacketValue → List UInt8
  | int8 value => leBytes 1 value.toBitVec.toNat
  | uint8 value => leBytes 1 value.toNat
  | int16 value => leBytes 2 value.toBitVec.toNat
  | uint16 value => leBytes 2 value.toNat
  | int32 value => leBytes 4 value.toBitVec.toNat
  | uint32 value => leBytes 4 value.toNat
  | int64 value => leBytes 8 value.toBitVec.toNat
  | uint64 value => leBytes 8 value.toNat
  | float bits => leBytes 4 bits.toNat
  | double bits => leBytes 8 bits.toNat
  | string value _ => value ++ [0]

/-- The getter of the same type. -/
def getter : PacketValue → Getter
  | int8 _ => .getInt8
  | uint8 _ => .getUint8
  | int16 _ => .getInt16
  | uint16 _ => .getUint16
  | int32 _ => .getInt32
  | uint32 _ => .getUint32
  | int64 _ => .getInt64
  | uint64 _ => .getUint64
  | float _ => .getFloat
  | double _ => .getDouble
  | string _ _ => .getString

/-- The value as a getter returns it. -/
def result : PacketValue → GetterValue
  | int8 value => .int value.toInt
  | uint8 value => .int value.toNat
  | int16 value => .int value.toInt
  | uint16 value => .int value.toNat
  | int32 value => .int value.toInt
  | uint32 value => .int value.toNat
  | int64 value => .int value.toInt
  | uint64 value => .int value.toNat
  | float bits => .real (leBytes 4 bits.toNat)
  | double bits => .real (leBytes 8 bits.toNat)
  | string value _ => .text value

end PacketValue

namespace BasePacket

variable {headSize : Nat}

/-- `pushInt8`, …, `pushString`. -/
def push (p : BasePacket headSize) (v : PacketValue) : BasePacket headSize :=
  match v with
  | .string value _ => (if value = [] then p else p.append value).append [0]
  | v => p.append v.bytes

def pushAll (p : BasePacket headSize) (values : List PacketValue) : BasePacket headSize :=
  values.foldl push p

/-- Calls of getters one after another: what they return, and the packet behind the last. -/
def getAll (p : BasePacket headSize) : List Getter → List GetterValue × BasePacket headSize
  | [] => ([], p)
  | g :: gs =>
    let r := getAll (g.after p) gs
    (g.result p :: r.1, r.2)

/-! ## 2. Pushing -/

theorem push_eq_append (p : BasePacket headSize) (v : PacketValue) : p.push v = p.append v.bytes := by
  cases v with
  | string value _ =>
    show (if value = [] then p else p.append value).append [0] = p.append (value ++ [0])
    by_cases hnil : value = []
    · rw [if_pos hnil, hnil, List.nil_append]
    · rw [if_neg hnil, append_append]
  | _ => rfl

theorem pushAll_eq_append (p : BasePacket headSize) (values : List PacketValue) :
    p.pushAll values = p.append (values.flatMap PacketValue.bytes) := by
  induction values generalizing p with
  | nil => rw [List.flatMap_nil, append_nil, pushAll, List.foldl_nil]
  | cons v values ih =>
    rw [pushAll, List.foldl_cons, push_eq_append]
    exact (ih _).trans (by rw [append_append, List.flatMap_cons])

/-- A packet whose write cursor stands at the end of its storage. -/
theorem append_storage_of_full {p : BasePacket headSize} (h : p.wpos = p.storage.length)
    (src : List UInt8) : (p.append src).storage = p.storage ++ src := by
  show p.storage.take p.wpos ++ src ++ p.storage.drop p.wpos = p.storage ++ src
  rw [h, List.take_length, List.drop_length, List.append_nil]

end BasePacket

/-! ## 3. Getting -/

/-- Two's complement, read back from the bytes. -/
theorem signedValue_leBytes {width : Nat} (hw : 0 < width) (b : BitVec (8 * width)) :
    signedValue (leBytes width b.toNat) = b.toInt := by
  have hlt := b.isLt
  have hpow : 2 ^ (8 * width) = 2 * 2 ^ (8 * width - 1) := by
    rw [← Nat.pow_succ', Nat.succ_eq_add_one, Nat.sub_add_cancel (by omega)]
  have hnat : leNat (leBytes width b.toNat) = b.toNat :=
    leNat_leBytes_of_lt (by rw [show 256 = 2 ^ 8 from rfl, ← Nat.pow_mul]; exact hlt)
  rw [signedValue, leBytes_length, hnat, BitVec.toInt_eq_toNat_cond]
  generalize hhalf : 2 ^ (8 * width - 1) = half at hpow
  have hcast : (2 : Int) ^ (8 * width - 1) = (half : Nat) := by rw [← hhalf]; norm_cast
  have hcast' : (2 : Int) ^ (8 * width) = (2 * half : Nat) := by rw [← hpow]; norm_cast
  rw [hcast, hcast']
  generalize b.toNat = n at hlt
  rw [hpow] at hlt ⊢
  split
  · rw [Int.emod_eq_of_lt] <;> omega
  · have hsub : ((n : Int) + half) % (2 * half : Nat) = n - half := by
      rw [← Int.sub_emod_right, Int.emod_eq_of_lt] <;> omega
    omega

theorem readString_append {value : List UInt8} (h : 0 ∉ value) (rest : List UInt8) :
    readString (value ++ 0 :: rest) = (value, value.length + 1) := by
  induction value with
  | nil => rfl
  | cons c value ih =>
    rw [List.mem_cons, not_or] at h
    rw [List.cons_append, readString, if_neg (Ne.symm h.1), ih h.2, List.length_cons]

namespace PacketValue

variable {headSize : Nat} {p : BasePacket headSize} {rest : List UInt8}

theorem unsigned_leBytes {width n : Nat} (h : n < 2 ^ (8 * width)) :
    GetterValue.int (leNat (leBytes width n)) = .int n := by
  rw [leNat_leBytes_of_lt]
  rwa [show 256 = 2 ^ 8 from rfl, ← Nat.pow_mul]

theorem signed_leBytes {width : Nat} (hw : 0 < width) (b : BitVec (8 * width)) :
    GetterValue.int (signedValue (leBytes width b.toNat)) = .int b.toInt := by
  rw [signedValue_leBytes hw]

/-- The value of a number getter on the bytes of a number of its type. -/
theorem number_value {v : PacketValue} {w : Nat} (hw : v.getter.width = some w) :
    v.bytes.length = w ∧ v.getter.value v.bytes = v.result := by
  cases v <;> cases hw
  case int8 value => exact ⟨leBytes_length _ _, signed_leBytes Nat.one_pos value.toBitVec⟩
  case int16 value => exact ⟨leBytes_length _ _, signed_leBytes two_pos value.toBitVec⟩
  case int32 value => exact ⟨leBytes_length _ _, signed_leBytes four_pos value.toBitVec⟩
  case int64 value =>
    exact ⟨leBytes_length _ _, signed_leBytes (Nat.zero_lt_succ 7) value.toBitVec⟩
  case uint8 value => exact ⟨leBytes_length _ _, unsigned_leBytes value.toNat_lt⟩
  case uint16 value => exact ⟨leBytes_length _ _, unsigned_leBytes value.toNat_lt⟩
  case uint32 value => exact ⟨leBytes_length _ _, unsigned_leBytes value.toNat_lt⟩
  case uint64 value => exact ⟨leBytes_length _ _, unsigned_leBytes value.toNat_lt⟩
  case float bits => exact ⟨leBytes_length _ _, rfl⟩
  case double bits => exact ⟨leBytes_length _ _, rfl⟩

theorem number_result {g : Getter} {w : Nat} (hw : g.width = some w) (p : BasePacket headSize) :
    g.result p = g.value (p.view (g.span p)) := by
  cases g <;> cases hw <;> rfl

/-- Only a text has no width. -/
theorem number_or_string (v : PacketValue) :
    (∃ w, v.getter.width = some w) ∨ ∃ value no_zero, v = string value no_zero := by
  cases v with
  | string value no_zero => exact .inr ⟨value, no_zero, rfl⟩
  | _ => exact .inl ⟨_, rfl⟩

/-- A getter where a value of its type lies. -/
theorem get_pushed (v : PacketValue) (h : p.readPointer = v.bytes ++ rest) :
    v.getter.result p = v.result ∧ (v.getter.after p).rpos = p.rpos + v.bytes.length := by
  obtain ⟨w, hw⟩ | ⟨value, no_zero, rfl⟩ := v.number_or_string
  · obtain ⟨hlen, hvalue⟩ := number_value hw
    obtain ⟨hspan, hrpos⟩ := Getter.number_span hw p
    refine ⟨?_, by rw [hrpos, hlen]⟩
    have hview : p.view (v.getter.span p) = v.bytes := by
      rw [hspan]
      show p.readPointer.take w = v.bytes
      rw [h, List.take_left' hlen]
    rw [number_result hw, hview, hvalue]
  · have hread : readString p.readPointer = (value, value.length + 1) := by
      rw [h, bytes, List.append_assoc]
      exact readString_append no_zero rest
    refine ⟨?_, ?_⟩
    · show GetterValue.text (readString p.readPointer).1 = .text value
      rw [hread]
    · show p.rpos + (readString p.readPointer).2 = p.rpos + (value ++ [0]).length
      rw [hread, List.length_append, List.length_singleton]

end PacketValue

namespace BasePacket

variable {headSize : Nat} {p : BasePacket headSize}

/-- Getters where values of their types lie, one behind the other. -/
theorem getAll_pushed {values : List PacketValue} {rest : List UInt8}
    (h : p.readPointer = values.flatMap PacketValue.bytes ++ rest) :
    (p.getAll (values.map PacketValue.getter)).1 = values.map PacketValue.result ∧
      (p.getAll (values.map PacketValue.getter)).2 =
        { p with rpos := p.rpos + (values.flatMap PacketValue.bytes).length } := by
  induction values generalizing p with
  | nil => exact ⟨rfl, rfl⟩
  | cons v values ih =>
    rw [List.flatMap_cons, List.append_assoc] at h
    obtain ⟨hresult, hrpos⟩ := v.get_pushed h
    have hafter : v.getter.after p = { p with rpos := p.rpos + v.bytes.length } := by
      ext1
      · exact Getter.after_storage _ _
      · exact hrpos
      · exact Getter.after_wpos _ _
    have hnext : (v.getter.after p).readPointer =
        values.flatMap PacketValue.bytes ++ rest := by
      rw [readPointer, Getter.after_storage, hrpos, ← List.drop_drop]
      show p.readPointer.drop v.bytes.length = _
      rw [h, List.drop_left]
    obtain ⟨hresults, hlast⟩ := ih hnext
    refine ⟨?_, ?_⟩
    · show v.getter.result p :: (getAll (v.getter.after p) _).1 = _
      rw [hresult, hresults]
      rfl
    · show (getAll (v.getter.after p) _).2 = _
      rw [hlast, hafter, List.flatMap_cons, List.length_append, Nat.add_assoc]

/-- What is pushed onto a packet that has been read to its end is read back; then the packet has
been read to its end again, and in front of the values it is as before. -/
theorem getAll_pushAll (hfull : p.wpos = p.storage.length) (hread : p.rpos = p.wpos)
    (values : List PacketValue) :
    ((p.pushAll values).getAll (values.map PacketValue.getter)).1 =
        values.map PacketValue.result ∧
      ((p.pushAll values).getAll (values.map PacketValue.getter)).2 =
        { p.pushAll values with rpos := (p.pushAll values).wpos } := by
  have hpointer : (p.pushAll values).readPointer =
      values.flatMap PacketValue.bytes ++ [] := by
    rw [pushAll_eq_append, readPointer, append_storage_of_full hfull, append_rpos, hread, hfull,
      List.drop_left, List.append_nil]
  obtain ⟨hresults, hlast⟩ := getAll_pushed hpointer
  refine ⟨hresults, hlast.trans ?_⟩
  ext1
  · rfl
  · show (p.pushAll values).rpos + _ = (p.pushAll values).wpos
    rw [pushAll_eq_append, append_rpos, append_wpos, hread]
  · rfl

end BasePacket

end LuaServer
