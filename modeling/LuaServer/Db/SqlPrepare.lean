import LuaServer.Common.ByteBuffer
import LuaServer.Common.Text
import LuaServer.Db.Mysql
import LuaServer.Reasoning.MachineInt
import LuaServer.Reasoning.Transition

/-!
# SqlPrepare — the parameters of a prepared statement

Each question mark of the text has a bind with a buffer.  A number gets a new buffer, a text or a
blob goes into the one that is there; `clear` only starts over.  The run keeps beside the statement
which value was pushed last into each bind.
-/

open Reasoning

namespace LuaServer

/-- `Tools::charCount`. -/
def charCount (str : List UInt8) (c : UInt8) : Int := toInt32 (str.count c)

/-- What is pushed; a `float` and a `double` by their bits. -/
inductive SqlValue
  | int8 (value : Int8)
  | uint8 (value : UInt8)
  | int16 (value : Int16)
  | uint16 (value : UInt16)
  | int32 (value : Int32)
  | uint32 (value : UInt32)
  | int64 (value : Int64)
  | uint64 (value : UInt64)
  | float (bits : UInt32)
  | double (bits : UInt64)
  | string (value : List UInt8)
  | blob (packet : ByteBuffer)
  | data (sv : List UInt8)

/-- `value > 0.0f`, for the bits of a `float`: no sign, no zero and no NaN. -/
def floatPositive (bits : UInt32) : Bool := 0 < bits ∧ bits ≤ 0x7f800000

/-- `value > 0.0f`, for the bits of a `double`. -/
def doublePositive (bits : UInt64) : Bool := 0 < bits ∧ bits ≤ 0x7ff0000000000000

namespace SqlValue

def type : SqlValue → FieldType
  | int8 _ | uint8 _ => .tiny
  | int16 _ | uint16 _ => .short
  | int32 _ | uint32 _ => .long
  | int64 _ | uint64 _ => .longlong
  | float _ => .float
  | double _ => .double
  | string _ => .string
  | blob _ | data _ => .blob

def bytes : SqlValue → List UInt8
  | int8 value => leBytes 1 value.toBitVec.toNat
  | uint8 value => leBytes 1 value.toNat
  | int16 value => leBytes 2 value.toBitVec.toNat
  | uint16 value => leBytes 2 value.toNat
  | int32 value => leBytes 4 value.toBitVec.toNat
  | uint32 value => leBytes 4 value.toNat
  | int64 value => leBytes 8 value.toBitVec.toNat
  | uint64 value => leBytes 8 value.toNat
  | float bits => leBytes 4 bits.toNat
  | double bits => leBytes 8 bits.toNat
  | string value => value
  | blob packet => packet.storage.take packet.wpos
  | data sv => sv

def isUnsigned : SqlValue → Bool
  | uint8 _ | uint16 _ | uint32 _ | uint64 _ => true
  | float bits => floatPositive bits
  | double bits => doublePositive bits
  | _ => false

/-- The value is copied into the buffer that is there. -/
def reuses : SqlValue → Bool
  | string _ | blob _ | data _ => true
  | _ => false

end SqlValue

/-! ## 1. The binds -/

namespace MysqlBind

/-- `SetParameterValue`: a new buffer of the right length. -/
def setParameterValue (param : MysqlBind) (type : FieldType) (value : List UInt8)
    (isUnsigned : Bool) : MysqlBind :=
  { param with
    bufferType := type
    buffer := some value
    bufferLength := value.length
    length := value.length
    isNullValue := false
    isUnsigned }

/-- `memcpy` of `len` bytes into the buffer; none is a copy past its end.  Without a buffer one of
that length is made; none is a negative length, for which `new` throws. -/
def copy (pBind : MysqlBind) (pData : List UInt8) (len : Int) : Option MysqlBind :=
  match pBind.buffer with
  | none => if len < 0 then none else some { pBind with buffer := some (pData.take len.toNat) }
  | some block =>
    if toSizeT len ≤ block.length then
      some { pBind with buffer := some (overwrite block 0 (pData.take len.toNat)) }
    else none

/-- What `pushString` and `write` do with their bind. -/
def store (pBind : MysqlBind) (type : FieldType) (pData : List UInt8) (len : Int) :
    Option MysqlBind :=
  copy { pBind with
    bufferLength := toSizeT len
    length := toSizeT len
    bufferType := type
    isUnsigned := false } pData len

end MysqlBind

/-! ## 2. The statement -/

structure SqlPrepare where
  m_count : Int
  m_paramBind : List MysqlBind
  m_widx : Nat
deriving DecidableEq

namespace SqlPrepare

/-- The constructor; `lengths` is what lies in the new array of the lengths. -/
def ofText (sqlstr : List UInt8) (lengths : Nat → Nat) : SqlPrepare where
  m_count := charCount sqlstr 63
  m_paramBind := (List.range (charCount sqlstr 63).toNat).map fun i => .zero (lengths i)
  m_widx := 0

def clear (self : SqlPrepare) : SqlPrepare := { self with m_widx := 0 }

/-- `MYSQL_BIND* pBind = &m_paramBind[m_widx++]` and what is done with it. -/
def next (self : SqlPrepare) (f : MysqlBind → Option MysqlBind) : Option SqlPrepare :=
  match self.m_paramBind[self.m_widx]? with
  | none => none
  | some pBind => (f pBind).map fun pBind' =>
    { self with
      m_paramBind := self.m_paramBind.set self.m_widx pBind'
      m_widx := self.m_widx + 1 }

variable (self : SqlPrepare)

/-- The body of the pushes of a number. -/
def pushNumber (type : FieldType) (value : List UInt8) (isUnsigned : Bool) : Option SqlPrepare :=
  self.next fun pBind => some (pBind.setParameterValue type value isUnsigned)

def pushInt8 (value : Int8) : Option SqlPrepare :=
  self.pushNumber .tiny (leBytes 1 value.toBitVec.toNat) false

def pushUint8 (value : UInt8) : Option SqlPrepare :=
  self.pushNumber .tiny (leBytes 1 value.toNat) true

def pushInt16 (value : Int16) : Option SqlPrepare :=
  self.pushNumber .short (leBytes 2 value.toBitVec.toNat) false

def pushUint16 (value : UInt16) : Option SqlPrepare :=
  self.pushNumber .short (leBytes 2 value.toNat) true

def pushInt32 (value : Int32) : Option SqlPrepare :=
  self.pushNumber .long (leBytes 4 value.toBitVec.toNat) false

def pushUint32 (value : UInt32) : Option SqlPrepare :=
  self.pushNumber .long (leBytes 4 value.toNat) true

def pushInt64 (value : Int64) : Option SqlPrepare :=
  self.pushNumber .longlong (leBytes 8 value.toBitVec.toNat) false

def pushUint64 (value : UInt64) : Option SqlPrepare :=
  self.pushNumber .longlong (leBytes 8 value.toNat) true

def pushFloat (bits : UInt32) : Option SqlPrepare :=
  self.pushNumber .float (leBytes 4 bits.toNat) (floatPositive bits)

def pushDouble (bits : UInt64) : Option SqlPrepare :=
  self.pushNumber .double (leBytes 8 bits.toNat) (doublePositive bits)

def pushString (value : List UInt8) : Option SqlPrepare :=
  self.next fun pBind => pBind.store .string value (toInt32 value.length)

def write (pData : List UInt8) (len : Int) : Option SqlPrepare :=
  self.next fun pBind => pBind.store .blob pData len

/-- `writePos` is an `int`. -/
def pushBlob (packet : ByteBuffer) : Option SqlPrepare :=
  self.write packet.storage (toInt32 packet.wpos)

def pushData (sv : List UInt8) : Option SqlPrepare := self.write sv (toInt32 sv.length)

def push : SqlValue → Option SqlPrepare
  | .int8 value => self.pushInt8 value
  | .uint8 value => self.pushUint8 value
  | .int16 value => self.pushInt16 value
  | .uint16 value => self.pushUint16 value
  | .int32 value => self.pushInt32 value
  | .uint32 value => self.pushUint32 value
  | .int64 value => self.pushInt64 value
  | .uint64 value => self.pushUint64 value
  | .float bits => self.pushFloat bits
  | .double bits => self.pushDouble bits
  | .string value => self.pushString value
  | .blob packet => self.pushBlob packet
  | .data sv => self.pushData sv

end SqlPrepare

/-! ## 3. Runs -/

inductive ParamCall
  | push (v : SqlValue)
  | clear

/-- A statement, and the value pushed last into each bind. -/
structure SqlRun where
  prepare : SqlPrepare
  last : List (Option SqlValue)

namespace SqlRun

def start (sqlstr : List UInt8) (lengths : Nat → Nat) : SqlRun where
  prepare := .ofText sqlstr lengths
  last := List.replicate (charCount sqlstr 63).toNat none

def step (s : SqlRun) : ParamCall → Option SqlRun
  | .push v => (s.prepare.push v).map fun prepare =>
    { prepare, last := s.last.set s.prepare.m_widx (some v) }
  | .clear => some { s with prepare := s.prepare.clear }

/-- There is a bind for every push. -/
def Possible (s : SqlRun) : ParamCall → Prop
  | .push _ => s.prepare.m_widx < s.prepare.m_count
  | .clear => True

/-- A text or a blob is shorter than 2^31 bytes and not longer than the buffer that is there. -/
def Fits (s : SqlRun) : ParamCall → Prop
  | .push v => v.reuses = true → v.bytes.length < 2 ^ 31 ∧
    ∀ pBind ∈ s.prepare.m_paramBind[s.prepare.m_widx]?, ∀ block ∈ pBind.buffer,
      v.bytes.length ≤ block.length
  | .clear => True

instance (s : SqlRun) : (c : ParamCall) → Decidable (Possible s c)
  | .push _ => inferInstanceAs (Decidable (_ < _))
  | .clear => .isTrue trivial

instance (s : SqlRun) : (c : ParamCall) → Decidable (Fits s c)
  | .push _ => inferInstanceAs (Decidable (_ → _))
  | .clear => .isTrue trivial

end SqlRun

/-- The bind holds the type, the length and the bytes of the value. -/
structure MysqlBind.Holds (pBind : MysqlBind) (v : SqlValue) : Prop where
  type : pBind.bufferType = v.type
  unsigned : pBind.isUnsigned = v.isUnsigned
  length : pBind.length = v.bytes.length
  bufferLength : pBind.bufferLength = v.bytes.length
  bytes : ∃ block, pBind.buffer = some block ∧ block.take v.bytes.length = v.bytes

/-- Each bind holds the value pushed last into it. -/
def SqlRun.Holding (s : SqlRun) : Prop :=
  ∀ (i : Nat) (v : SqlValue), s.last[i]? = some (some v) →
    ∃ pBind, s.prepare.m_paramBind[i]? = some pBind ∧ pBind.Holds v

/-! ## 4. One push -/

namespace MysqlBind

/-- A buffer has the length of some `int`. -/
def Small (pBind : MysqlBind) : Prop := ∀ block, pBind.buffer = some block → block.length < 2 ^ 31

def put (pBind : MysqlBind) (v : SqlValue) : Option MysqlBind :=
  if v.reuses then pBind.store v.type v.bytes (toInt32 v.bytes.length)
  else some (pBind.setParameterValue v.type v.bytes v.isUnsigned)

variable {pBind pBind' : MysqlBind} {v : SqlValue}

theorem bytes_length_lt (h : v.reuses = false) : v.bytes.length < 2 ^ 31 := by
  cases v <;> first | (rw [SqlValue.bytes, leBytes_length]; decide) | cases h

theorem isUnsigned_of_reuses (h : v.reuses = true) : v.isUnsigned = false := by
  cases v <;> first | rfl | cases h

theorem put_of_reuses (h : v.reuses = true) :
    pBind.put v = pBind.store v.type v.bytes (toInt32 v.bytes.length) := if_pos h

theorem put_of_number (h : v.reuses = false) :
    pBind.put v = some (pBind.setParameterValue v.type v.bytes v.isUnsigned) :=
  if_neg (by rw [h]; exact Bool.false_ne_true)

/-- A value that fits goes into the bind. -/
theorem put_spec (hsmall : pBind.Small)
    (hfits : v.reuses = true → v.bytes.length < 2 ^ 31 ∧
      ∀ block ∈ pBind.buffer, v.bytes.length ≤ block.length) :
    ∃ pBind', pBind.put v = some pBind' ∧ pBind'.Holds v ∧ pBind'.Small := by
  cases hreuses : v.reuses with
  | false =>
    refine ⟨_, put_of_number hreuses, ⟨rfl, rfl, rfl, rfl, v.bytes, rfl, List.take_length⟩, ?_⟩
    intro block hblock
    obtain rfl := Option.some.inj hblock
    exact bytes_length_lt hreuses
  | true =>
    obtain ⟨hlt, hle⟩ := hfits hreuses
    have hlen : toInt32 v.bytes.length = v.bytes.length := toInt32_of_lt hlt
    have hsize : toSizeT v.bytes.length = v.bytes.length := by
      rw [toSizeT_of_lt (by omega) (by omega), Int.toNat_natCast]
    have hunsigned : false = v.isUnsigned := (isUnsigned_of_reuses hreuses).symm
    rw [put_of_reuses hreuses, store, copy, hlen, hsize, Int.toNat_natCast, List.take_length]
    cases hbuffer : pBind.buffer with
    | none =>
      dsimp only
      rw [if_neg (by omega)]
      refine ⟨_, rfl, ⟨rfl, hunsigned, rfl, rfl, v.bytes, rfl, List.take_length⟩, ?_⟩
      intro block hblock
      obtain rfl := Option.some.inj hblock
      exact hlt
    | some block =>
      have hblock := hle block hbuffer
      dsimp only
      rw [if_pos hblock]
      refine ⟨_, rfl, ⟨rfl, hunsigned, rfl, rfl, _, rfl, ?_⟩, ?_⟩
      · rw [overwrite_zero, List.take_left]
      · intro block' hblock'
        obtain rfl := Option.some.inj hblock'
        rw [overwrite_length (by omega)]
        exact hsmall block hbuffer

/-- A value that is in the bind afterwards did fit. -/
theorem fits_of_put (hsmall : pBind.Small) (h : pBind.put v = some pBind') (hholds : pBind'.Holds v)
    (hreuses : v.reuses = true) :
    v.bytes.length < 2 ^ 31 ∧ ∀ block ∈ pBind.buffer, v.bytes.length ≤ block.length := by
  rw [put_of_reuses hreuses, store, copy] at h
  obtain ⟨hlo, hhi⟩ := toInt32_bounds v.bytes.length
  have hlength := hholds.length
  cases hbuffer : pBind.buffer with
  | none =>
    simp only [hbuffer] at h
    by_cases hneg : toInt32 v.bytes.length < 0
    · rw [if_pos hneg] at h
      cases h
    · rw [if_neg hneg] at h
      obtain rfl := Option.some.inj h
      dsimp only at hlength
      rw [toSizeT_of_lt (by omega) (by omega)] at hlength
      exact ⟨by omega, fun block hblock => by cases hblock⟩
  | some block =>
    simp only [hbuffer] at h
    by_cases hle : toSizeT (toInt32 v.bytes.length) ≤ block.length
    · rw [if_pos hle] at h
      obtain rfl := Option.some.inj h
      have hblock := hsmall block hbuffer
      dsimp only at hlength
      rw [hlength] at hle
      refine ⟨by omega, fun block' hblock' => ?_⟩
      obtain rfl := Option.some.inj hblock'
      exact hle
    · rw [if_neg hle] at h
      cases h

end MysqlBind

/-- `memcpy` reads no further than the length. -/
theorem MysqlBind.copy_take (pBind : MysqlBind) {pData : List UInt8} {len : Int} {n : Nat}
    (h : len.toNat ≤ n) : pBind.copy (pData.take n) len = pBind.copy pData len := by
  have htake : (pData.take n).take len.toNat = pData.take len.toNat := by
    rw [List.take_take, Nat.min_eq_left h]
  rw [copy, copy, htake]

namespace SqlPrepare

variable {self self' : SqlPrepare} {v : SqlValue}

/-- Every push puts its value into the next bind. -/
theorem push_eq (self : SqlPrepare) (v : SqlValue) :
    self.push v = self.next fun pBind => pBind.put v := by
  cases v with
  | blob packet =>
    have hlen : (packet.storage.take packet.wpos).length = packet.wpos := by
      rw [List.length_take, Nat.min_eq_left packet.wpos_le]
    show self.next (fun pBind => pBind.store .blob packet.storage (toInt32 packet.wpos)) = _
    refine congrArg self.next (funext fun pBind => ?_)
    rw [MysqlBind.put_of_reuses rfl, SqlValue.bytes, hlen, MysqlBind.store, MysqlBind.store,
      MysqlBind.copy_take _ (toInt32_toNat_le _)]
    rfl
  | _ => rfl

theorem next_eq {f : MysqlBind → Option MysqlBind} {pBind : MysqlBind}
    (h : self.m_paramBind[self.m_widx]? = some pBind) :
    self.next f = (f pBind).map fun pBind' =>
      { self with
        m_paramBind := self.m_paramBind.set self.m_widx pBind'
        m_widx := self.m_widx + 1 } := by
  rw [next, h]

end SqlPrepare

/-! ## 5. Every run -/

namespace SqlRun

variable {s t : SqlRun} {c : ParamCall} {v : SqlValue}

structure Sound (s : SqlRun) : Prop where
  count : s.prepare.m_paramBind.length = s.prepare.m_count.toNat
  last : s.last.length = s.prepare.m_paramBind.length
  small : ∀ pBind ∈ s.prepare.m_paramBind, pBind.Small
  holding : s.Holding

theorem start_sound (sqlstr : List UInt8) (lengths : Nat → Nat) :
    (start sqlstr lengths).Sound := by
  refine ⟨?_, ?_, ?_, ?_⟩
  · simp [start, SqlPrepare.ofText]
  · simp [start, SqlPrepare.ofText]
  · intro pBind hmem block hblock
    simp only [start, SqlPrepare.ofText, List.mem_map] at hmem
    obtain ⟨i, -, rfl⟩ := hmem
    simp only [MysqlBind.zero, reduceCtorEq] at hblock
  · intro i v hi
    simp only [start, List.getElem?_replicate] at hi
    split at hi <;> cases hi

theorem Sound.bind_of_possible (h : s.Sound) (hp : Possible s (.push v)) :
    ∃ pBind, s.prepare.m_paramBind[s.prepare.m_widx]? = some pBind := by
  have hp' : (s.prepare.m_widx : Int) < s.prepare.m_count := hp
  have hlt : s.prepare.m_widx < s.prepare.m_paramBind.length := by
    rw [h.count]
    omega
  exact ⟨_, List.getElem?_eq_getElem hlt⟩

/-- What a push that comes to its end leaves. -/
theorem step_push_iff {pBind : MysqlBind}
    (hbind : s.prepare.m_paramBind[s.prepare.m_widx]? = some pBind) :
    step s (.push v) = some t ↔ ∃ pBind', pBind.put v = some pBind' ∧
      t = { prepare := { s.prepare with
              m_paramBind := s.prepare.m_paramBind.set s.prepare.m_widx pBind'
              m_widx := s.prepare.m_widx + 1 }
            last := s.last.set s.prepare.m_widx (some v) } := by
  rw [step, SqlPrepare.push_eq, SqlPrepare.next_eq hbind, Option.map_map, Option.map_eq_some_iff]
  exact exists_congr fun pBind' => and_congr_right fun _ => eq_comm

/-- The new value is in its bind, and no other bind is touched. -/
theorem holding_push {pBind pBind' : MysqlBind} (h : s.Sound)
    (hbind : s.prepare.m_paramBind[s.prepare.m_widx]? = some pBind) (hholds : pBind'.Holds v) :
    Holding { prepare := { s.prepare with
                m_paramBind := s.prepare.m_paramBind.set s.prepare.m_widx pBind'
                m_widx := s.prepare.m_widx + 1 }
              last := s.last.set s.prepare.m_widx (some v) } := by
  have hlt := (List.getElem?_eq_some_iff.mp hbind).1
  intro i w hi
  by_cases heq : s.prepare.m_widx = i
  · subst heq
    have hi' : (s.last.set s.prepare.m_widx (some v))[s.prepare.m_widx]? = some (some w) := hi
    rw [List.getElem?_set_self (by rw [h.last]; exact hlt)] at hi'
    obtain rfl := Option.some.inj (Option.some.inj hi')
    exact ⟨pBind', List.getElem?_set_self hlt, hholds⟩
  · have hi' : (s.last.set s.prepare.m_widx (some v))[i]? = some (some w) := hi
    rw [List.getElem?_set_ne heq] at hi'
    obtain ⟨b, hb, hw⟩ := h.holding i w hi'
    exact ⟨b, (List.getElem?_set_ne heq).trans hb, hw⟩

/-- In every run no copy goes past its buffer and each bind holds the value pushed last into it,
exactly if every text and blob fits. -/
theorem params_safe_iff (sqlstr : List UInt8) (lengths : Nat → Nat) {cs : List ParamCall}
    (hpossible : Allowed Possible step (start sqlstr lengths) cs) :
    Safe (fun _ _ t => t.Holding) step (start sqlstr lengths) cs ↔
      Allowed Fits step (start sqlstr lengths) cs := by
  refine safe_iff_allowed (I := Sound) ?_ ?_ (start_sound sqlstr lengths) hpossible
  · intro s c hs hp hfits
    cases c with
    | clear => exact ⟨_, rfl, hs.holding, hs.count, hs.last, hs.small, hs.holding⟩
    | push v =>
      obtain ⟨pBind, hbind⟩ := hs.bind_of_possible hp
      have hmem := List.mem_of_getElem? hbind
      obtain ⟨pBind', hput, hholds, hsmall⟩ := MysqlBind.put_spec (hs.small pBind hmem)
        fun hreuses => ⟨(hfits hreuses).1, (hfits hreuses).2 pBind hbind⟩
      have hholding := holding_push hs hbind hholds
      refine ⟨_, (step_push_iff hbind).mpr ⟨pBind', hput, rfl⟩, hholding, ?_, ?_, ?_, hholding⟩
      · rw [List.length_set]
        exact hs.count
      · rw [List.length_set, List.length_set]
        exact hs.last
      · intro b hb
        rcases List.mem_or_eq_of_mem_set hb with hb | rfl
        · exact hs.small b hb
        · exact hsmall
  · intro s c t hs hp hstep hholding
    cases c with
    | clear => trivial
    | push v =>
      obtain ⟨pBind, hbind⟩ := hs.bind_of_possible hp
      obtain ⟨pBind', hput, rfl⟩ := (step_push_iff hbind).mp hstep
      have hlt := (List.getElem?_eq_some_iff.mp hbind).1
      intro hreuses
      obtain ⟨b, hb, hholds⟩ := hholding s.prepare.m_widx v
        (List.getElem?_set_self (by rw [hs.last]; exact hlt))
      obtain rfl : pBind' = b :=
        Option.some.inj ((List.getElem?_set_self hlt).symm.trans hb)
      obtain ⟨hlen, hle⟩ := MysqlBind.fits_of_put (hs.small pBind (List.mem_of_getElem? hbind))
        hput hholds hreuses
      refine ⟨hlen, fun b hb => ?_⟩
      obtain rfl : pBind = b := Option.some.inj (hbind.symm.trans hb)
      exact hle

/-- `select ?` with a number, and with a shorter text after `clear`. -/
theorem params_safe_of_shorter :
    Safe (fun _ _ t => t.Holding) step (start (ascii "select ?") fun _ => 0)
      [.push (.int16 5), .clear, .push (.string [97])] :=
  (params_safe_iff _ _ (by decide +kernel)).mpr (by decide +kernel)

/-- `select ?` with a text, and with a longer one after `clear`. -/
theorem params_copy_longer :
    Allowed Possible step (start (ascii "select ?") fun _ => 0)
        [.push (.string [97]), .clear, .push (.string [97, 98])] ∧
      run step (start (ascii "select ?") fun _ => 0)
        [.push (.string [97]), .clear, .push (.string [97, 98])] = none ∧
      ¬ Safe (fun _ _ t => t.Holding) step (start (ascii "select ?") fun _ => 0)
        [.push (.string [97]), .clear, .push (.string [97, 98])] := by
  have hnone : run step (start (ascii "select ?") fun _ => 0)
      [.push (.string [97]), .clear, .push (.string [97, 98])] = none := by
    decide +kernel
  refine ⟨by decide +kernel, hnone, fun hsafe => ?_⟩
  obtain ⟨t, ht, -⟩ := Safe.reached hsafe (start_sound _ _).holding
  exact Option.some_ne_none t (ht.symm.trans hnone)

end SqlRun
end LuaServer
