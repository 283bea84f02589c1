import LuaServer.Db.SqlResultSet
import LuaServer.Reasoning.Transition

/-!
# SqlRead — reading a result set

`fetch` moves the cursor to the next row, and each getter takes the next column.  A field is `NULL` for
the getters if it has no buffer; `setResult` gives one to every cell, also to a NULL, so that only
cells that it has not come to are `NULL`.
-/

open Reasoning

namespace LuaServer

/-! ## 1. The cursor -/

/-- The bytes from `data()` on, `length()` of them. -/
def SqlField.text (self : SqlField) : Option (List UInt8) := self.getValue self.m_len.toNat

namespace SqlResultSet

def fetch (self : SqlResultSet) : Bool × SqlResultSet :=
  if self.m_currRowIdx + 1 ≥ self.m_rowCount then (false, self)
  else (true, { self with m_currRowIdx := self.m_currRowIdx + 1, m_currColIdx := 0 })

/-- The index of a column of the current row in `m_fields`. -/
def position (self : SqlResultSet) (idx : Int) : Nat :=
  toSizeT (self.m_currRowIdx * self.m_fieldCount + idx)

/-- The outer none is an index past the end of `m_fields`, the inner one is `NULL`. -/
def getField (self : SqlResultSet) (idx : Int) : Option (Option SqlField) :=
  if self.m_currRowIdx < 0 ∨ self.m_currRowIdx ≥ self.m_rowCount ∨ idx ≥ self.m_fieldCount then
    some none
  else (self.m_fields[self.position idx]?).map fun field =>
    if field.isEmpty then none else some field

/-- The pointer that `getField` returns, as a `bool`. -/
def emptyField (self : SqlResultSet) (idx : Int) : Option Bool :=
  (self.getField idx).map Option.isSome

/-- `m_currColIdx++`. -/
def nextColumn (self : SqlResultSet) : SqlResultSet :=
  { self with m_currColIdx := toInt32 (self.m_currColIdx + 1) }

/-- `getField(m_currColIdx++)`, and what is made of the field. -/
def read {α : Type} (self : SqlResultSet) (null : α) (get : SqlField → Option α) :
    Option (α × SqlResultSet) :=
  (self.getField self.m_currColIdx).bind fun field =>
    (field.elim (some null) get).map fun a => (a, self.nextColumn)

/-! ## 2. The getters -/

variable (self : SqlResultSet)

/-- The body of the getters of a number, which stands for its bytes. -/
def getNumber (size : Nat) : Option (List UInt8 × SqlResultSet) :=
  self.read (List.replicate size 0) fun field => field.getValue size

def getInt8 : Option (List UInt8 × SqlResultSet) := self.getNumber 1

def getUint8 : Option (List UInt8 × SqlResultSet) := self.getNumber 1

def getInt16 : Option (List UInt8 × SqlResultSet) := self.getNumber 2

def getUint16 : Option (List UInt8 × SqlResultSet) := self.getNumber 2

def getInt32 : Option (List UInt8 × SqlResultSet) := self.getNumber 4

def getUint32 : Option (List UInt8 × SqlResultSet) := self.getNumber 4

def getInt64 : Option (List UInt8 × SqlResultSet) := self.getNumber 8

def getUint64 : Option (List UInt8 × SqlResultSet) := self.getNumber 8

def getFloat : Option (List UInt8 × SqlResultSet) := self.getNumber 4

def getDouble : Option (List UInt8 × SqlResultSet) := self.getNumber 8

def getString : Option (List UInt8 × SqlResultSet) := self.read [] fun field => field.text

/-- What is appended to the packet; its length is returned. -/
def readBlob : Option (List UInt8 × SqlResultSet) := self.read [] fun field => field.text

def getStrview : Option (List UInt8 × SqlResultSet) := self.read [] fun field => field.text

/-- The block that the pointer leads to; none is `NULL`. -/
def getData : Option (Option (List UInt8) × SqlResultSet) :=
  self.read none fun field => some field.m_buff

/-- `getData(len)`; none is a `len` that is left as it is. -/
def getDataLen : Option ((Option (List UInt8) × Option Int) × SqlResultSet) :=
  self.read (none, none) fun field => some (field.m_buff, some field.m_len)

end SqlResultSet

inductive SqlNumber
  | int8 | uint8 | int16 | uint16 | int32 | uint32 | int64 | uint64 | float | double
deriving DecidableEq

/-- `sizeof` of the type. -/
def SqlNumber.size : SqlNumber → Nat
  | int8 | uint8 => 1
  | int16 | uint16 => 2
  | int32 | uint32 | float => 4
  | int64 | uint64 | double => 8

inductive SqlGetter
  | number (type : SqlNumber)
  | string
  | blob
  | strview
  | data
  | dataLen
deriving DecidableEq

inductive SqlReturn
  | flag (value : Bool)
  | number (bytes : List UInt8)
  | text (bytes : List UInt8)
  | data (block : Option (List UInt8))
  | dataLen (block : Option (List UInt8)) (len : Option Int)
deriving DecidableEq

namespace SqlResultSet

def getOf (self : SqlResultSet) : SqlNumber → Option (List UInt8 × SqlResultSet)
  | .int8 => self.getInt8
  | .uint8 => self.getUint8
  | .int16 => self.getInt16
  | .uint16 => self.getUint16
  | .int32 => self.getInt32
  | .uint32 => self.getUint32
  | .int64 => self.getInt64
  | .uint64 => self.getUint64
  | .float => self.getFloat
  | .double => self.getDouble

def get (self : SqlResultSet) : SqlGetter → Option (SqlReturn × SqlResultSet)
  | .number type => (self.getOf type).map (Prod.map .number id)
  | .string => self.getString.map (Prod.map .text id)
  | .blob => self.readBlob.map (Prod.map .text id)
  | .strview => self.getStrview.map (Prod.map .text id)
  | .data => self.getData.map (Prod.map .data id)
  | .dataLen => self.getDataLen.map (Prod.map (fun r => .dataLen r.1 r.2) id)

end SqlResultSet

namespace SqlGetter

/-- Of a getter of a number, its size. -/
def size : SqlGetter → Option Nat
  | number type => some type.size
  | _ => none

/-- What a getter returns for `NULL`. -/
def null : SqlGetter → SqlReturn
  | number type => .number (List.replicate type.size 0)
  | string | blob | strview => .text []
  | data => .data none
  | dataLen => .dataLen none none

/-- What a getter returns for a value. -/
def value (g : SqlGetter) (bytes : List UInt8) : SqlReturn :=
  match g with
  | number _ => .number bytes
  | string | blob | strview => .text bytes
  | data => .data (some bytes)
  | dataLen => .dataLen (some bytes) (some bytes.length)

/-- What a getter makes of a field. -/
def ofField (g : SqlGetter) (field : SqlField) : Option SqlReturn :=
  match g with
  | number type => (field.getValue type.size).map .number
  | string | blob | strview => field.text.map .text
  | data => some (.data field.m_buff)
  | dataLen => some (.dataLen field.m_buff (some field.m_len))

end SqlGetter

theorem stored_length {value : List UInt8} (h : 0 ≤ toInt32 value.length) :
    (stored value).length = (toInt32 value.length).toNat ∧
      toInt32 value.length = (stored value).length := by
  rw [stored, List.length_take, Nat.min_eq_left (toInt32_toNat_le _)]
  exact ⟨rfl, (Int.toNat_of_nonneg h).symm⟩

namespace SqlResultSet

variable {self : SqlResultSet} {reply : MysqlReply} {pRowCount : Nat} {g : SqlGetter}

theorem map_read {α β : Type} (f : α → β) (null : α) (get : SqlField → Option α) :
    (self.read null get).map (Prod.map f id) =
      self.read (f null) fun field => (get field).map f := by
  rw [read, read, Option.map_bind]
  congr 1
  funext field
  cases field with
  | none => rfl
  | some field =>
    simp only [Function.comp_apply, Option.elim_some, Option.map_map]
    rfl

/-- Every getter reads the next column. -/
theorem get_eq (self : SqlResultSet) (g : SqlGetter) : self.get g = self.read g.null g.ofField := by
  cases g with
  | number type => cases type <;> exact map_read SqlReturn.number _ _
  | string | blob | strview => exact map_read SqlReturn.text [] _
  | data => exact map_read SqlReturn.data none _
  | dataLen => exact map_read (fun r => SqlReturn.dataLen r.1 r.2) (none, none) _

/-! ## 3. Bounds -/

/-- What a getter makes of a cell, when it reads no more than is there. -/
theorem ofField_ofCell {value : Option (List UInt8)} (h : ∀ v ∈ value, 0 ≤ toInt32 v.length) :
    (g.ofField (.ofCell value)).isSome = true ↔
      ∀ size ∈ g.size, size ≤ (value.elim [] stored).length := by
  have hbuff : (SqlField.ofCell value).m_buff.getD [] = value.elim [] stored := by
    cases value <;> rfl
  have hlen : (SqlField.ofCell value).m_len.toNat = (value.elim [] stored).length := by
    cases value with
    | none => rfl
    | some v =>
      obtain ⟨hv, -⟩ := stored_length (h v rfl)
      rw [SqlField.ofCell_some, Option.elim_some, hv]
  have htext : (SqlField.ofCell value).text.isSome = true := by
    rw [SqlField.text, SqlField.getValue, hbuff, hlen, if_pos (Nat.le_refl _), Option.isSome_some]
  cases g with
  | number type =>
    simp only [SqlGetter.ofField, SqlGetter.size, Option.isSome_map, SqlField.getValue, hbuff,
      Option.mem_some_iff, forall_eq']
    split <;> simp_all
  | string | blob | strview =>
    rw [SqlGetter.ofField, Option.isSome_map, htext]
    exact iff_of_true rfl nofun
  | data | dataLen => exact iff_of_true rfl nofun

/-- A getter has a column of the current row to read. -/
def AtColumn (self : SqlResultSet) : Prop :=
  0 ≤ self.m_currRowIdx ∧ self.m_currRowIdx < self.m_rowCount ∧
    self.m_currColIdx < self.m_fieldCount

instance (self : SqlResultSet) : Decidable self.AtColumn := inferInstanceAs (Decidable (_ ∧ _))

/-- The field of a cell that has been copied is no `NULL`, one behind the last cell is. -/
theorem read_at (h : self.AtColumn) (g : SqlGetter) :
    self.get g = (self.m_fields[self.position self.m_currColIdx]?).bind fun field =>
      (if field.isEmpty then some g.null else g.ofField field).map fun r => (r, self.nextColumn) := by
  obtain ⟨hlo, hhi, hcol⟩ := h
  rw [get_eq, read, getField, if_neg (by omega), Option.bind_map]
  congr 1
  funext field
  cases hempty : field.isEmpty <;> simp [hempty]

theorem read_beside (h : ¬ self.AtColumn) (g : SqlGetter) :
    self.get g = some (g.null, self.nextColumn) := by
  have hnull : self.m_currRowIdx < 0 ∨ self.m_currRowIdx ≥ self.m_rowCount ∨
      self.m_currColIdx ≥ self.m_fieldCount := by
    unfold AtColumn at h
    omega
  rw [get_eq, read, getField, if_pos hnull]
  rfl

end SqlResultSet

inductive SqlCall
  | fetch
  | get (g : SqlGetter)

namespace SqlResultSet

variable {self : SqlResultSet} {reply : MysqlReply} {pRowCount : Nat} {g : SqlGetter}

def step (self : SqlResultSet) : SqlCall → Option SqlResultSet
  | .fetch => some self.fetch.2
  | .get g => (self.get g).map Prod.snd

/-- The getter has no column to read, or the columns could be bound, the field is one of those made for
the rows announced, and if its cell has been copied a number is not longer than its value. -/
def InBounds (reply : MysqlReply) (pRowCount : Nat) (self : SqlResultSet) : SqlCall → Prop
  | .fetch => True
  | .get g => self.AtColumn →
    reply.bound = true ∧
      self.position self.m_currColIdx < pRowCount * reply.fields.length % 2 ^ 32 ∧
        ∀ cell ∈ reply.cells[self.position self.m_currColIdx]?, ∀ size ∈ g.size,
          size ≤ (cell.2.elim [] stored).length

theorem get_isSome_iff (h : self.Loaded reply pRowCount) (g : SqlGetter) :
    (self.get g).isSome = true ↔ InBounds reply pRowCount self (.get g) := by
  by_cases hat : self.AtColumn
  · rw [read_at hat, InBounds]
    generalize self.position self.m_currColIdx = p
    by_cases hbound : reply.bound = true
    · have hsize := h.size
      rw [if_pos hbound] at hsize
      by_cases hp : p < self.m_fields.length
      · cases hcell : reply.cells[p]? with
        | none =>
          rw [h.rest p hcell hp]
          refine iff_of_true rfl fun _ => ⟨hbound, hsize ▸ hp, nofun⟩
        | some cell =>
          obtain ⟨hpos, hfield⟩ := h.cell hbound p cell hcell
          have hempty : (SqlField.ofCell cell.2).isEmpty = false := by
            cases cell.2 <;> rfl
          rw [hfield, Option.bind_some, hempty, if_neg Bool.false_ne_true, Option.isSome_map,
            ofField_ofCell hpos]
          constructor
          · intro hle _
            refine ⟨hbound, hsize ▸ hp, fun cell' hcell' => ?_⟩
            obtain rfl := Option.some.inj hcell'
            exact hle
          · intro hall
            exact (hall hat).2.2 cell rfl
      · rw [List.getElem?_eq_none_iff.mpr (Nat.not_lt.mp hp)]
        exact iff_of_false Bool.false_ne_true fun hall => hp (hsize ▸ (hall hat).2.1)
    · have hsize := h.size
      rw [if_neg hbound] at hsize
      rw [List.length_eq_zero_iff.mp hsize]
      exact iff_of_false Bool.false_ne_true fun hall => hbound (hall hat).1
  · rw [read_beside hat]
    exact iff_of_true rfl fun hat' => absurd hat' hat

/-- Reading changes only the cursor. -/
theorem step_loaded {c : SqlCall} {self' : SqlResultSet} (h : self.Loaded reply pRowCount)
    (hstep : self.step c = some self') : self'.Loaded reply pRowCount := by
  cases c with
  | fetch =>
    obtain rfl := Option.some.inj hstep
    rw [fetch]
    split
    · exact h
    · exact ⟨h.rowCount, h.fieldCount, h.size, h.cell, h.rest⟩
  | get g =>
    rw [step, get_eq, read, Option.map_bind, Option.bind_eq_some_iff] at hstep
    obtain ⟨field, -, hfield⟩ := hstep
    rw [Function.comp_apply, Option.map_map, Option.map_eq_some_iff] at hfield
    obtain ⟨r, -, rfl⟩ := hfield
    exact ⟨h.rowCount, h.fieldCount, h.size, h.cell, h.rest⟩

/-- After every `setResult` that comes to its end, `fetch` and the getters stay within the fields and
within the cells, exactly if every getter does. -/
theorem reads_in_bounds_iff {sizeofTime : Nat} {rs : SqlResultSet}
    (h : setResult sizeofTime {} reply pRowCount = .ok rs) (cs : List SqlCall) :
    Safe (fun _ _ _ => True) step rs cs ↔ Allowed (InBounds reply pRowCount) step rs cs := by
  refine safe_iff_allowed_of_isSome (I := Loaded reply pRowCount) (E := fun _ _ => True)
    (fun s c hs _ => ?_) (fun _ _ _ hs hstep => step_loaded hs hstep) (setResult_loaded h).1
    (allowed_of_forall (fun _ _ => trivial) rs cs)
  cases c with
  | fetch => exact iff_of_true rfl trivial
  | get g => rw [step, Option.isSome_map, get_isSome_iff hs]

instance (reply : MysqlReply) (pRowCount : Nat) (self : SqlResultSet) :
    (c : SqlCall) → Decidable (InBounds reply pRowCount self c)
  | .fetch => .isTrue trivial
  | .get _ => inferInstanceAs (Decidable (_ → _))

/-- A `TINYINT`. -/
theorem reads_in_bounds_tinyint :
    ∃ (reply : MysqlReply) (rs : SqlResultSet), setResult 40 {} reply 1 = .ok rs ∧
      Safe (fun _ _ _ => True) step rs [.fetch, .get (.number .int8), .get .string, .fetch] := by
  have hset : setResult 40 {}
      { fields := [⟨.tiny, 0, 4, 0⟩], fields_lt := by decide, bound := true
        fetches := [.row fun _ => some [5], .noData] } 1 =
      .ok { m_fields := [{ m_buff := some [5], m_len := 1 }], m_rowCount := 1, m_fieldCount := 1 } := by
    decide +kernel
  exact ⟨_, _, hset, (reads_in_bounds_iff hset _).mpr (by decide +kernel)⟩

/-- Columns that could not be bound: there is no field, but a row. -/
theorem reads_unbound :
    ∃ (reply : MysqlReply) (rs : SqlResultSet), setResult 40 {} reply 1 = .ok rs ∧
      ¬ Safe (fun _ _ _ => True) step rs [.fetch, .get (.number .int8)] := by
  have hset : setResult 40 {}
      { fields := [⟨.tiny, 0, 4, 0⟩], fields_lt := by decide, bound := false, fetches := [] } 1 =
      .ok { m_rowCount := 1, m_fieldCount := 1 } := by
    decide +kernel
  refine ⟨_, _, hset, fun hsafe => ?_⟩
  obtain ⟨t, ht, -, u, hu, -⟩ := hsafe
  obtain rfl := Option.some.inj ht
  cases hu

end SqlResultSet

end LuaServer
