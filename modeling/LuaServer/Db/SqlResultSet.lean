import LuaServer.Db.Mysql
import LuaServer.Reasoning.MachineInt

/-!
# SqlResultSet — the result of a statement

`setResult` copies every value of the result into the fields, row by row.  `fetch` and the getters walk
over them with a cursor.
-/

open Reasoning

namespace LuaServer

/-- How the copying ends early: `new` throws for a negative length, or a read or an index leaves its
memory. -/
inductive Fault
  | badAlloc
  | outOfBounds
deriving DecidableEq

/-! ## 1. Fields -/

structure SqlField where
  m_buff : Option (List UInt8) := none
  m_len : Int := 0
deriving DecidableEq

namespace SqlField

/-- `memcpy` of `len` bytes from `pdata`, which may be `NULL`. -/
def make (pdata : Option (List UInt8)) (len : Int) : Except Fault SqlField :=
  if len < 0 then .error .badAlloc
  else if len.toNat ≤ (pdata.getD []).length then
    .ok { m_buff := some ((pdata.getD []).take len.toNat), m_len := len }
  else .error .outOfBounds

def isEmpty (self : SqlField) : Bool := self.m_buff.isNone

/-- `getValue<T>` for a type of this size; none is a read past the end of the buffer. -/
def getValue (self : SqlField) (size : Nat) : Option (List UInt8) :=
  if size ≤ (self.m_buff.getD []).length then some ((self.m_buff.getD []).take size) else none

end SqlField

/-! ## 2. The result set -/

section
-- `sizeof(MYSQL_TIME)`
variable (sizeofTime : Nat)

/-- The table of `allocateResultBuffer`; none is a type that it does not know. -/
def resultLength (field : MysqlField) : Option Nat :=
  match field.type with
  | .tiny => some 1
  | .year | .short => some 2
  | .int24 | .long => some 4
  | .longlong => some 8
  | .float => some 4
  | .double => some 8
  | .newdecimal => some 67
  | .time | .date | .datetime | .timestamp => some sizeofTime
  | .string | .varString => some field.length
  | .tinyBlob | .blob | .mediumBlob | .longBlob => some field.maxLength
  | .bit => some 1
  | _ => none

/-- A new buffer is read only where a fetch has filled it. -/
def allocateResultBuffer (bind : MysqlBind) : Option MysqlField → MysqlBind
  | none => { bind with bufferType := .null }
  | some field =>
    let bind := { bind with bufferType := field.type, isUnsigned := field.flags.testBit 5 }
    match resultLength sizeofTime field with
    | some length =>
      { bind with bufferLength := length, buffer := some (List.replicate length 0) }
    | none => bind

end

structure SqlResultSet where
  m_fields : List SqlField := []
  m_currRowIdx : Int := -1
  m_currColIdx : Int := 0
  m_rowCount : Int := 0
  m_fieldCount : Int := 0
deriving DecidableEq

/-- `_fetch`: the row, if the library has brought one. -/
def StmtFetch.fetched : StmtFetch → Option MysqlRow
  | row r | truncated r => some r
  | noData | error => none

/-- The rows that the library brings. -/
def StmtFetch.rows : List StmtFetch → List MysqlRow
  | [] => []
  | f :: fs => f.fetched.elim [] fun row => row :: rows fs

/-- `pdata` and `len` of a column. -/
def MysqlBind.source (pBind : MysqlBind) : Option (List UInt8) × Int :=
  if pBind.isNull then (none, 0) else (pBind.buffer, toInt32 pBind.length)

namespace SqlResultSet

/-- `m_fields[i].make(pdata, len)`. -/
def store (fields : List SqlField) (i : Nat) (d : Option (List UInt8) × Int) :
    Except Fault (List SqlField) :=
  if i < fields.length then (SqlField.make d.1 d.2).map fun field => fields.set i field
  else .error .outOfBounds

/-- The loop over the columns; the index is a `uint32`. -/
def storeFrom : Nat → List (Option (List UInt8) × Int) → List SqlField →
    Except Fault (List SqlField)
  | _, [], fields => .ok fields
  | index, d :: ds, fields =>
    (store fields (toUint32 index) d).bind fun fields => storeFrom (index + 1) ds fields

/-- The loop over the rows. -/
def storeRows (binds : List MysqlBind) : Nat → List StmtFetch → List SqlField →
    Except Fault (List SqlField)
  | _, [], fields => .ok fields
  | rowIndex, f :: fs, fields =>
    match f.fetched with
    | none => .ok fields
    | some row =>
      let ds := binds.zipIdx.map fun b => (b.1.receive (row b.2)).source
      (storeFrom (rowIndex * binds.length) ds fields).bind fun fields =>
        storeRows binds (rowIndex + 1) fs fields

/-- `resize` of a vector of fields. -/
def resize (fields : List SqlField) (n : Nat) : List SqlField :=
  fields.take n ++ List.replicate (n - fields.length) ({} : SqlField)

def setResult (sizeofTime : Nat) (self : SqlResultSet) (reply : MysqlReply) (pRowCount : Nat) :
    Except Fault SqlResultSet :=
  let pFieldCount := reply.fields.length
  let self := { self with m_rowCount := toInt64 pRowCount, m_fieldCount := toInt32 pFieldCount }
  if pFieldCount = 0 then .ok self
  else
    let resultBind := reply.fields.map fun field =>
      allocateResultBuffer sizeofTime (.zero 0) (some field)
    if reply.bound then
      let fields := resize self.m_fields (toUint32 (toUint32 pRowCount * pFieldCount))
      (storeRows resultBind 0 reply.fetches fields).map fun fields =>
        { self with m_fields := fields }
    else .ok self

/-! ## 3. The copies, one behind the other -/

variable {fields fields' : List SqlField} {index : Nat}
  {d : Option (List UInt8) × Int} {ds ds' : List (Option (List UInt8) × Int)}

/-- The bytes are there. -/
def Fits (d : Option (List UInt8) × Int) : Prop := d.2.toNat ≤ (d.1.getD []).length

/-- The field that is made of them. -/
def made (d : Option (List UInt8) × Int) : SqlField :=
  { m_buff := some ((d.1.getD []).take d.2.toNat), m_len := d.2 }

theorem storeFrom_append (index : Nat) (ds ds' : List (Option (List UInt8) × Int))
    (fields : List SqlField) :
    storeFrom index (ds ++ ds') fields =
      (storeFrom index ds fields).bind fun fields => storeFrom (index + ds.length) ds' fields := by
  induction ds generalizing index fields with
  | nil => rfl
  | cons d ds ih =>
    simp only [List.cons_append, storeFrom]
    cases store fields (toUint32 index) d with
    | error e => rfl
    | ok fields =>
      show storeFrom (index + 1) (ds ++ ds') fields = _
      rw [ih, List.length_cons, Nat.add_right_comm, Nat.add_assoc]
      rfl

theorem storeRows_eq (binds : List MysqlBind) (rowIndex : Nat) (fs : List StmtFetch)
    (fields : List SqlField) :
    storeRows binds rowIndex fs fields = storeFrom (rowIndex * binds.length)
      ((StmtFetch.rows fs).flatMap fun row => binds.zipIdx.map fun b => (b.1.receive (row b.2)).source)
      fields := by
  induction fs generalizing rowIndex fields with
  | nil => rfl
  | cons f fs ih =>
    rw [storeRows, StmtFetch.rows]
    cases f.fetched with
    | none => rfl
    | some row =>
      simp only [Option.elim_some, List.flatMap_cons, storeFrom_append, List.length_map,
        List.length_zipIdx, ih, Nat.succ_mul]

/-- What storing one value comes to: the block cannot be had, or the field is made, or the bytes or the
place of the field are not there. -/
theorem store_cases (hfields : fields.length < 2 ^ 32) (hindex : index ≤ fields.length)
    (d : Option (List UInt8) × Int) :
    (index < fields.length ∧ d.2 < 0 ∧ store fields (toUint32 index) d = .error .badAlloc) ∨
      (index < fields.length ∧ 0 ≤ d.2 ∧ Fits d ∧
        store fields (toUint32 index) d = .ok (fields.set index (made d))) ∨
      ((index < fields.length → 0 ≤ d.2 ∧ ¬ Fits d) ∧
        store fields (toUint32 index) d = .error .outOfBounds) := by
  rw [store, toUint32_of_lt (by omega)]
  by_cases hlt : index < fields.length
  · rw [if_pos hlt, SqlField.make]
    by_cases hneg : d.2 < 0
    · exact .inl ⟨hlt, hneg, by rw [if_pos hneg]; rfl⟩
    · rw [if_neg hneg]
      have hpos := Int.not_lt.mp hneg
      by_cases hfits : d.2.toNat ≤ (d.1.getD []).length
      · exact .inr (.inl ⟨hlt, hpos, hfits, by rw [if_pos hfits]; rfl⟩)
      · exact .inr (.inr ⟨fun _ => ⟨hpos, hfits⟩, by rw [if_neg hfits]; rfl⟩)
  · exact .inr (.inr ⟨fun h => absurd h hlt, if_neg hlt⟩)

/-- The copies and the indices are all right, exactly if each is that the loop comes to: it ends at
the first negative length. -/
theorem storeFrom_ne_outOfBounds_iff (hfields : fields.length < 2 ^ 32)
    (hindex : index ≤ fields.length) :
    storeFrom index ds fields ≠ .error .outOfBounds ↔
      ∀ i d, ds[i]? = some d → (∀ i' < i, ∀ d', ds[i']? = some d' → 0 ≤ d'.2) →
        index + i < fields.length ∧ Fits d := by
  induction ds generalizing index fields with
  | nil => exact iff_of_true nofun nofun
  | cons d ds ih =>
    rw [storeFrom]
    obtain ⟨hlt, hneg, hstore⟩ | ⟨hlt, hpos, hfits, hstore⟩ | ⟨hfault, hstore⟩ :=
      store_cases hfields hindex d
    · rw [hstore]
      refine iff_of_true nofun fun i d' hi hbefore => ?_
      cases i with
      | zero =>
        obtain rfl := Option.some.inj hi
        refine ⟨hlt, ?_⟩
        unfold Fits
        omega
      | succ i => exact absurd hneg (Int.not_lt.mpr (hbefore 0 (Nat.succ_pos i) d rfl))
    · rw [hstore]
      show storeFrom (index + 1) ds (fields.set index (made d)) ≠ _ ↔ _
      rw [ih (by rwa [List.length_set]) (by rwa [List.length_set]), List.length_set]
      constructor
      · intro h i d' hi hbefore
        cases i with
        | zero =>
          obtain rfl := Option.some.inj hi
          exact ⟨hlt, hfits⟩
        | succ i =>
          have hrest := h i d' hi fun i' hi' d'' hd'' =>
            hbefore (i' + 1) (Nat.succ_lt_succ hi') d'' hd''
          exact ⟨by omega, hrest.2⟩
      · intro h i d' hi hbefore
        have hrest := h (i + 1) d' hi fun i' hi' d'' hd'' => by
          cases i' with
          | zero =>
            obtain rfl := Option.some.inj hd''
            exact hpos
          | succ i' => exact hbefore i' (Nat.lt_of_succ_lt_succ hi') d'' hd''
        exact ⟨by omega, hrest.2⟩
    · rw [hstore]
      refine iff_of_false (fun h => h rfl) fun h => ?_
      obtain ⟨hlt, hfits⟩ := h 0 d rfl fun i' hi' => absurd hi' (Nat.not_lt_zero i')
      exact (hfault hlt).2 hfits

/-- Copies that come to their end: everything lies in its place, and what lies behind is as before. -/
theorem storeFrom_ok (hfields : fields.length < 2 ^ 32) (hindex : index ≤ fields.length)
    (h : storeFrom index ds fields = .ok fields') :
    index + ds.length ≤ fields.length ∧ fields'.length = fields.length ∧
      (∀ i d, ds[i]? = some d → 0 ≤ d.2 ∧ Fits d ∧ fields'[index + i]? = some (made d)) ∧
      ∀ p, p < index ∨ index + ds.length ≤ p → fields'[p]? = fields[p]? := by
  induction ds generalizing index fields with
  | nil =>
    cases h
    exact ⟨hindex, rfl, nofun, fun _ _ => rfl⟩
  | cons d ds ih =>
    rw [storeFrom] at h
    obtain ⟨-, -, hstore⟩ | ⟨hlt, hpos, hfits, hstore⟩ | ⟨-, hstore⟩ := store_cases hfields hindex d
    · rw [hstore] at h
      cases h
    · rw [hstore] at h
      have h' : storeFrom (index + 1) ds (fields.set index (made d)) = .ok fields' := h
      obtain ⟨hle, hlength, hplaces, hrest⟩ :=
        ih (by rwa [List.length_set]) (by rwa [List.length_set]) h'
      rw [List.length_set] at hle hlength
      refine ⟨by rw [List.length_cons]; omega, hlength, fun i d' hi => ?_, fun p hp => ?_⟩
      · cases i with
        | zero =>
          obtain rfl := Option.some.inj hi
          refine ⟨hpos, hfits, ?_⟩
          rw [Nat.add_zero, hrest _ (.inl (Nat.lt_succ_self index)), List.getElem?_set_self hlt]
        | succ i =>
          have hplace := hplaces i d' hi
          rw [Nat.add_right_comm] at hplace
          exact hplace
      · rw [List.length_cons] at hp
        rw [hrest p (by omega), List.getElem?_set_ne (by omega)]
    · rw [hstore] at h
      cases h

end SqlResultSet

/-! ## 4. The cells -/

/-- The column and the value of each cell, in the order in which they are copied. -/
def MysqlReply.cells (reply : MysqlReply) : List (MysqlField × Option (List UInt8)) :=
  (StmtFetch.rows reply.fetches).flatMap fun row => reply.fields.zipIdx.map fun f => (f.1, row f.2)

/-- What is kept of a value: as many bytes as its length is as an `int`. -/
def stored (value : List UInt8) : List UInt8 := value.take (toInt32 value.length).toNat

/-- The field of a cell. -/
def SqlField.ofCell : Option (List UInt8) → SqlField
  | none => { m_buff := some [], m_len := 0 }
  | some value => { m_buff := some (stored value), m_len := toInt32 value.length }

theorem SqlField.ofCell_some (value : List UInt8) :
    SqlField.ofCell (some value) = { m_buff := some (stored value), m_len := toInt32 value.length } :=
  rfl

namespace SqlResultSet

variable {sizeofTime : Nat} {cell : MysqlField × Option (List UInt8)} {reply : MysqlReply}
  {pRowCount : Nat} {rs : SqlResultSet}

/-- `resultBind[f].buffer_length`. -/
def bufferLength (sizeofTime : Nat) (field : MysqlField) : Nat :=
  (allocateResultBuffer sizeofTime (.zero 0) (some field)).bufferLength

def cellSource (sizeofTime : Nat) (cell : MysqlField × Option (List UInt8)) :
    Option (List UInt8) × Int :=
  ((allocateResultBuffer sizeofTime (.zero 0) (some cell.1)).receive cell.2).source

/-- A buffer is as long as its `buffer_length` says. -/
theorem allocated (sizeofTime : Nat) (field : MysqlField) :
    ((allocateResultBuffer sizeofTime (.zero 0) (some field)).buffer.getD []).length =
      bufferLength sizeofTime field := by
  rw [bufferLength, allocateResultBuffer]
  cases resultLength sizeofTime field with
  | none => rfl
  | some length => exact List.length_replicate

/-- The buffer of a value begins with the value, as far as it goes. -/
theorem cellSource_buffer (sizeofTime : Nat) (field : MysqlField) (value : List UInt8) :
    ((cellSource sizeofTime (field, some value)).1.getD []).length = bufferLength sizeofTime field ∧
      ∀ len ≤ value.length, len ≤ bufferLength sizeofTime field →
        ((cellSource sizeofTime (field, some value)).1.getD []).take len = value.take len := by
  have hlength := allocated sizeofTime field
  rw [bufferLength] at hlength ⊢
  show (((allocateResultBuffer sizeofTime (.zero 0) (some field)).buffer.map _).getD []).length = _ ∧
    ∀ len ≤ value.length, len ≤ _ →
      (((allocateResultBuffer sizeofTime (.zero 0) (some field)).buffer.map _).getD []).take len = _
  generalize (allocateResultBuffer sizeofTime (.zero 0) (some field)) = pBind at hlength ⊢
  cases hbuffer : pBind.buffer with
  | none =>
    rw [hbuffer] at hlength
    refine ⟨hlength, fun len _ hlen => ?_⟩
    have hzero : 0 = pBind.bufferLength := hlength
    obtain rfl : len = 0 := by omega
    rfl
  | some block =>
    rw [hbuffer, Option.getD_some] at hlength
    have htake : (value.take pBind.bufferLength).length ≤ block.length := by
      rw [List.length_take, hlength]
      exact Nat.min_le_left _ _
    rw [Option.map_some, Option.getD_some]
    refine ⟨(overwrite_length (by omega)).trans hlength, fun len hvalue hlen => ?_⟩
    have hle : len ≤ (value.take pBind.bufferLength).length := by
      rw [List.length_take]
      exact Nat.le_min.mpr ⟨hlen, hvalue⟩
    rw [overwrite_zero, List.take_append_of_le_length hle, List.take_take, Nat.min_eq_left hlen]

theorem fits_cellSource_iff : Fits (cellSource sizeofTime cell) ↔
    ∀ value ∈ cell.2, toInt32 value.length ≤ bufferLength sizeofTime cell.1 := by
  obtain ⟨field, value⟩ := cell
  cases value with
  | none => exact iff_of_true (Nat.zero_le _) nofun
  | some value =>
    rw [Fits, (cellSource_buffer sizeofTime field value).1]
    show (toInt32 value.length).toNat ≤ _ ↔ _
    simp only [Option.mem_some_iff, forall_eq']
    omega

theorem nonneg_cellSource_iff : 0 ≤ (cellSource sizeofTime cell).2 ↔
    ∀ value ∈ cell.2, 0 ≤ toInt32 value.length := by
  obtain ⟨field, value⟩ := cell
  cases value with
  | none => exact iff_of_true (Int.le_refl 0) nofun
  | some value =>
    simp only [Option.mem_some_iff, forall_eq']
    exact Iff.rfl

theorem made_cellSource (hpos : 0 ≤ (cellSource sizeofTime cell).2)
    (hfits : Fits (cellSource sizeofTime cell)) :
    made (cellSource sizeofTime cell) = SqlField.ofCell cell.2 := by
  rw [nonneg_cellSource_iff] at hpos
  rw [fits_cellSource_iff] at hfits
  obtain ⟨field, value⟩ := cell
  cases value with
  | none => rfl
  | some value =>
    have hlo := hpos value rfl
    have hhi : toInt32 value.length ≤ bufferLength sizeofTime field := hfits value rfl
    have htake := (cellSource_buffer sizeofTime field value).2 _ (toInt32_toNat_le _) (by omega)
    exact congrArg (fun bytes => SqlField.mk (some bytes) (toInt32 value.length)) htake

/-- The rows and columns one behind the other. -/
theorem sources_eq (reply : MysqlReply) :
    ((StmtFetch.rows reply.fetches).flatMap fun row =>
      (reply.fields.map fun field =>
        allocateResultBuffer sizeofTime (.zero 0) (some field)).zipIdx.map fun b =>
          (b.1.receive (row b.2)).source) =
      reply.cells.map (cellSource sizeofTime) := by
  rw [MysqlReply.cells, List.map_flatMap]
  congr 1
  funext row
  rw [List.zipIdx_map, List.map_map, List.map_map]
  rfl

theorem resize_length (fields : List SqlField) (n : Nat) : (resize fields n).length = n := by
  rw [resize, List.length_append, List.length_take, List.length_replicate]
  omega

/-- The size that `resize` is given. -/
theorem size_eq (a b : Nat) : toUint32 (toUint32 a * b) = a * b % 2 ^ 32 := by
  rw [toUint32_natCast a, ← Nat.cast_mul, toUint32_natCast, Nat.mod_mul_mod]

/-- `setResult` up to the fields. -/
theorem setResult_eq (self : SqlResultSet) (reply : MysqlReply) (pRowCount : Nat) :
    setResult sizeofTime self reply pRowCount =
      if reply.fields.length = 0 ∨ reply.bound = false then
        .ok { self with
          m_rowCount := toInt64 pRowCount
          m_fieldCount := toInt32 reply.fields.length }
      else
        (storeFrom 0 (reply.cells.map (cellSource sizeofTime))
          (resize self.m_fields (pRowCount * reply.fields.length % 2 ^ 32))).map fun fields =>
            { self with
              m_fields := fields
              m_rowCount := toInt64 pRowCount
              m_fieldCount := toInt32 reply.fields.length } := by
  rw [setResult]
  by_cases hempty : reply.fields.length = 0
  · rw [if_pos hempty, if_pos (.inl hempty)]
  · cases hbound : reply.bound with
    | false => rw [if_neg hempty, if_neg Bool.false_ne_true, if_pos (.inr rfl)]
    | true =>
      rw [if_neg hempty, if_pos rfl, if_neg (by simp [hempty])]
      dsimp only
      rw [storeRows_eq, sources_eq, size_eq, Nat.zero_mul]

theorem cells_eq_nil (h : reply.fields.length = 0) : reply.cells = [] := by
  rw [MysqlReply.cells, List.length_eq_zero_iff.mp h]
  exact List.flatMap_eq_nil_iff.mpr fun _ _ => rfl

/-- The cells in front of this one have lengths that are no negative `int`s. -/
def Reached (reply : MysqlReply) (i : Nat) : Prop :=
  ∀ i' < i, ∀ cell, reply.cells[i']? = some cell → ∀ value ∈ cell.2, 0 ≤ toInt32 value.length

/-- Every copy stays within the buffer of its column and every index within the fields, exactly if
each cell that is reached has a value no longer than the buffer and comes before the end of the
fields. -/
theorem setResult_in_bounds_iff (sizeofTime : Nat) (self : SqlResultSet) (reply : MysqlReply)
    (pRowCount : Nat) :
    setResult sizeofTime self reply pRowCount ≠ .error .outOfBounds ↔
      (reply.bound = true → ∀ i cell, reply.cells[i]? = some cell → Reached reply i →
        i < pRowCount * reply.fields.length % 2 ^ 32 ∧
          ∀ value ∈ cell.2, toInt32 value.length ≤ bufferLength sizeofTime cell.1) := by
  rw [setResult_eq]
  by_cases hnone : reply.fields.length = 0 ∨ reply.bound = false
  · rw [if_pos hnone]
    refine iff_of_true nofun fun hbound i cell hcell => ?_
    rcases hnone with hempty | hfalse
    · rw [cells_eq_nil hempty] at hcell
      cases hcell
    · rw [hbound] at hfalse
      cases hfalse
  · obtain ⟨-, hbound⟩ := not_or.mp hnone
    have hmap (x : Except Fault (List SqlField)) (f : List SqlField → SqlResultSet) :
        x.map f ≠ .error .outOfBounds ↔ x ≠ .error .outOfBounds := by
      cases x with
      | error e => exact not_congr ⟨fun h => by cases h; rfl, fun h => by cases h; rfl⟩
      | ok a => exact iff_of_true nofun nofun
    have hlength := resize_length self.m_fields (pRowCount * reply.fields.length % 2 ^ 32)
    rw [if_neg hnone, hmap, storeFrom_ne_outOfBounds_iff (by omega) (Nat.zero_le _), hlength]
    simp only [List.getElem?_map, Option.map_eq_some_iff, forall_exists_index, and_imp,
      forall_apply_eq_imp_iff₂, Nat.zero_add, fits_cellSource_iff, nonneg_cellSource_iff, Reached,
      Bool.eq_true_of_not_eq_false hbound, true_imp_iff]

/-- What `setResult` leaves in the fields: each cell in its place, and nothing behind the last. -/
structure Loaded (reply : MysqlReply) (pRowCount : Nat) (rs : SqlResultSet) : Prop where
  rowCount : rs.m_rowCount = toInt64 pRowCount
  fieldCount : rs.m_fieldCount = toInt32 reply.fields.length
  size : rs.m_fields.length =
    if reply.bound then pRowCount * reply.fields.length % 2 ^ 32 else 0
  cell : reply.bound = true → ∀ (i : Nat) (cell : MysqlField × Option (List UInt8)),
    reply.cells[i]? = some cell →
      (∀ value ∈ cell.2, 0 ≤ toInt32 value.length) ∧ rs.m_fields[i]? = some (.ofCell cell.2)
  rest : ∀ i, reply.cells[i]? = none → i < rs.m_fields.length → rs.m_fields[i]? = some {}

theorem getElem?_resize_nil {n i : Nat} (h : i < n) : (resize [] n)[i]? = some {} := by
  rw [resize, List.take_nil, List.nil_append, List.getElem?_replicate]
  exact if_pos h

theorem setResult_loaded (h : setResult sizeofTime {} reply pRowCount = .ok rs) :
    rs.Loaded reply pRowCount ∧ rs.m_currRowIdx = -1 ∧ rs.m_currColIdx = 0 ∧
      (reply.bound = true → reply.cells.length ≤ pRowCount * reply.fields.length % 2 ^ 32) := by
  rw [setResult_eq] at h
  by_cases hnone : reply.fields.length = 0 ∨ reply.bound = false
  · rw [if_pos hnone] at h
    cases h
    have hbound (hbound : reply.bound = true) : reply.fields.length = 0 :=
      hnone.resolve_right (by rw [hbound]; exact Bool.noConfusion)
    refine ⟨⟨rfl, rfl, ?_, ?_, ?_⟩, rfl, rfl, ?_⟩
    · cases hb : reply.bound with
      | false => rfl
      | true => rw [if_pos rfl, hbound hb]; rfl
    · intro hb i cell hcell
      rw [cells_eq_nil (hbound hb)] at hcell
      cases hcell
    · intro i _ hi
      exact absurd hi (Nat.not_lt_zero i)
    · intro hb
      rw [cells_eq_nil (hbound hb)]
      exact Nat.zero_le _
  · obtain ⟨-, hbound⟩ := not_or.mp hnone
    have hb : reply.bound = true := Bool.eq_true_of_not_eq_false hbound
    rw [if_neg hnone] at h
    generalize hsize : pRowCount * reply.fields.length % 2 ^ 32 = size at h
    have hlength := resize_length [] size
    cases hstore : storeFrom 0 (reply.cells.map (cellSource sizeofTime)) (resize [] size) with
    | error e =>
      rw [hstore] at h
      cases h
    | ok fields =>
      rw [hstore] at h
      cases h
      obtain ⟨hle, hfields, hcells, hrest⟩ :=
        storeFrom_ok (by rw [hlength, ← hsize]; exact Nat.mod_lt _ (by decide)) (Nat.zero_le _)
          hstore
      rw [Nat.zero_add, List.length_map, hlength] at hle
      rw [hlength] at hfields
      refine ⟨⟨rfl, rfl, ?_, ?_, ?_⟩, rfl, rfl, fun _ => hsize ▸ hle⟩
      · rw [if_pos hb, hsize]
        exact hfields
      · intro _ i cell hcell
        obtain ⟨hpos, hfits, hplace⟩ := hcells i (cellSource sizeofTime cell)
          (by rw [List.getElem?_map, hcell, Option.map_some])
        rw [Nat.zero_add, made_cellSource hpos hfits] at hplace
        exact ⟨nonneg_cellSource_iff.mp hpos, hplace⟩
      · intro i hcell hi
        have hbehind : 0 + (reply.cells.map (cellSource sizeofTime)).length ≤ i := by
          rw [Nat.zero_add, List.length_map]
          exact List.getElem?_eq_none_iff.mp hcell
        have hi' : i < fields.length := hi
        exact (hrest i (.inr hbehind)).trans (getElem?_resize_nil (by omega))

/-- One row with a `BIT` column of two bytes, whose buffer has one. -/
theorem setResult_bit_column :
    ∃ reply : MysqlReply, (StmtFetch.rows reply.fetches).length ≤ 1 ∧
      setResult 40 {} reply 1 = .error .outOfBounds :=
  ⟨{ fields := [⟨.bit, 0, 16, 2⟩], fields_lt := by decide, bound := true
     fetches := [.truncated fun _ => some [1, 2], .noData] }, by decide, by decide +kernel⟩

end SqlResultSet
end LuaServer
