import LuaServer.Db.SqlRead
import LuaServer.Reasoning.RowMajor
import Mathlib.Data.List.TakeDrop

/-!
# SqlTable — what the getters return of a table

The rows and columns are those of the result, with a NULL in any of its cells.  The run keeps beside the
result set how many rows and columns the calls have gone through, and what each call has returned.
-/

open Reasoning

namespace LuaServer

/-- A result set and its reader: how many rows have been fetched, how many columns of the last one have
been taken, and what the last call has returned. -/
structure ReadRun where
  rs : SqlResultSet
  row : Nat
  col : Nat
  returned : Option SqlReturn

inductive ReadCall
  | fetch
  | get (g : SqlGetter)
  | emptyField (c : Nat)

/-- The cell at a row and a column. -/
def MysqlReply.cell (reply : MysqlReply) (r c : Nat) : Option (List UInt8) :=
  (StmtFetch.rows reply.fetches)[r]?.bind fun row => row c

namespace SqlGetter

def readsText : SqlGetter → Bool
  | string | blob | strview => true
  | _ => false

/-- What the getter should return for a cell. -/
def expected (g : SqlGetter) (cell : Option (List UInt8)) : SqlReturn :=
  cell.elim g.null fun value => g.value (stored value)

/-- The getter reads a text, or the cell has a value and a number is as long as it. -/
def Suits (g : SqlGetter) : Option (List UInt8) → Prop
  | none => g.readsText = true
  | some value => ∀ size ∈ g.size, (stored value).length = size

instance suitsDecidable (g : SqlGetter) : (cell : Option (List UInt8)) → Decidable (g.Suits cell)
  | none => inferInstanceAs (Decidable (_ = _))
  | some _ => inferInstanceAs (Decidable (∀ _ ∈ _, _))

end SqlGetter

namespace ReadRun

def step (pRowCount : Nat) (s : ReadRun) : ReadCall → Option ReadRun
  | .fetch =>
    let r := s.rs.fetch
    some (if s.row < pRowCount then
      { rs := r.2, row := s.row + 1, col := 0, returned := some (.flag r.1) }
    else { s with rs := r.2, returned := some (.flag r.1) })
  | .get g => (s.rs.get g).map fun r => { s with rs := r.2, col := s.col + 1, returned := some r.1 }
  | .emptyField c => (s.rs.emptyField c).map fun b => { s with returned := some (.flag b) }

/-- There is a row, and a column of it. -/
def Possible (reply : MysqlReply) (s : ReadRun) : ReadCall → Prop
  | .fetch => True
  | .get _ => 0 < s.row ∧ s.col < reply.fields.length
  | .emptyField c => 0 < s.row ∧ c < reply.fields.length

/-- What the call should return. -/
def expected (reply : MysqlReply) (pRowCount : Nat) (s : ReadRun) : ReadCall → SqlReturn
  | .fetch => .flag (s.row < pRowCount)
  | .get g => g.expected (reply.cell (s.row - 1) s.col)
  | .emptyField c => .flag (reply.cell (s.row - 1) c).isNone

/-- A getter suits its cell, and `emptyField` is asked of a NULL only. -/
def Suits (reply : MysqlReply) (s : ReadRun) : ReadCall → Prop
  | .fetch => True
  | .get g => g.Suits (reply.cell (s.row - 1) s.col)
  | .emptyField c => reply.cell (s.row - 1) c = none

end ReadRun

namespace SqlGetter

variable {g : SqlGetter} {value : Option (List UInt8)}

theorem size_pos (type : SqlNumber) : 0 < type.size := by
  cases type <;> decide

theorem number_eq_iff {value : List UInt8} (type : SqlNumber) :
    (number type).ofField (.ofCell (some value)) = some (.number (stored value)) ↔
      (stored value).length = type.size := by
  rw [SqlField.ofCell_some, ofField, SqlField.getValue, Option.getD_some]
  by_cases hle : type.size ≤ (stored value).length
  · rw [if_pos hle, Option.map_some, Option.some.injEq, SqlReturn.number.injEq, List.take_eq_self_iff]
    omega
  · rw [if_neg hle]
    exact iff_of_false (Option.some_ne_none _).symm (by omega)

theorem text_ofCell {value : List UInt8} (h : 0 ≤ toInt32 value.length) :
    (SqlField.ofCell (some value)).text = some (stored value) := by
  rw [SqlField.ofCell_some, SqlField.text, SqlField.getValue, Option.getD_some, ← (stored_length h).1,
    if_pos (Nat.le_refl _), List.take_length]

theorem suits_value (h : g.size = none) (value : List UInt8) : g.Suits (some value) := by
  intro size hsize
  rw [h] at hsize
  exact absurd hsize (Option.not_mem_none size)

/-- A getter returns what it should, exactly if it suits the cell. -/
theorem ofField_eq_iff (h : ∀ v ∈ value, 0 ≤ toInt32 v.length) :
    g.ofField (.ofCell value) = some (g.expected value) ↔ g.Suits value := by
  cases value with
  | none =>
    cases g with
    | number type =>
      have hsize : ¬ type.size ≤ 0 := Nat.not_le.mpr (size_pos type)
      rw [ofField, SqlField.getValue]
      refine iff_of_false ?_ Bool.false_ne_true
      rw [show ((SqlField.ofCell none).m_buff.getD []).length = 0 from rfl, if_neg hsize]
      exact (Option.some_ne_none _).symm
    | string | blob | strview => exact iff_of_true rfl rfl
    | data | dataLen => exact iff_of_false (fun h => by cases h) Bool.false_ne_true
  | some value =>
    have hpos := h value rfl
    cases g with
    | number type =>
      rw [Suits, size]
      simp only [Option.mem_some_iff, forall_eq']
      exact number_eq_iff type
    | string | blob | strview =>
      rw [ofField, text_ofCell hpos]
      exact iff_of_true rfl (suits_value rfl value)
    | data => exact iff_of_true rfl (suits_value rfl value)
    | dataLen =>
      refine iff_of_true ?_ (suits_value rfl value)
      rw [SqlField.ofCell_some, ofField, (stored_length hpos).2]
      rfl

end SqlGetter

namespace ReadRun

variable {reply : MysqlReply} {pRowCount : Nat} {s t : ReadRun}

/-- The cells of the whole table in their places. -/
theorem getElem?_cells (reply : MysqlReply) {r c : Nat} (hr : r < (StmtFetch.rows reply.fetches).length)
    (hc : c < reply.fields.length) :
    ∃ field, reply.cells[r * reply.fields.length + c]? = some (field, reply.cell r c) := by
  refine ⟨reply.fields[c], ?_⟩
  rw [MysqlReply.cells, getElem?_rowMajor (fun row => by simp) _ r hc, MysqlReply.cell,
    List.getElem?_eq_getElem hr, Option.bind_some, Option.bind_some, List.getElem?_map,
    List.getElem?_zipIdx, List.getElem?_eq_getElem hc]
  simp

/-- The cursor of the code stands where the calls have led to. -/
structure Reading (reply : MysqlReply) (pRowCount : Nat) (s : ReadRun) : Prop where
  loaded : s.rs.Loaded reply pRowCount
  currRowIdx : s.rs.m_currRowIdx = s.row - 1
  currColIdx : s.rs.m_currColIdx = s.col
  row_le : s.row ≤ pRowCount
  col_le : s.col ≤ reply.fields.length

/-- All rows have been brought, and the counts fit their types. -/
structure Complete (reply : MysqlReply) (pRowCount : Nat) : Prop where
  bound : reply.bound = true
  rows : (StmtFetch.rows reply.fetches).length = pRowCount
  columns_pos : 0 < reply.fields.length
  columns_lt : reply.fields.length < 2 ^ 31
  cells_lt : pRowCount * reply.fields.length < 2 ^ 32

theorem Complete.rows_lt (h : Complete reply pRowCount) : pRowCount < 2 ^ 32 :=
  Nat.lt_of_le_of_lt (Nat.le_mul_of_pos_right pRowCount h.columns_pos) h.cells_lt

/-- The field at a column of the current row is that of its cell. -/
theorem Reading.getField (h : Reading reply pRowCount s) (hc : Complete reply pRowCount)
    (hrow : 0 < s.row) {c : Nat} (hcol : c < reply.fields.length) :
    (∀ value ∈ reply.cell (s.row - 1) c, 0 ≤ toInt32 value.length) ∧
      s.rs.getField c = some (some (.ofCell (reply.cell (s.row - 1) c))) := by
  have hrow' : s.row - 1 < pRowCount := by
    have hle := h.row_le
    omega
  obtain ⟨field, hcell⟩ := getElem?_cells reply (hc.rows ▸ hrow') hcol
  obtain ⟨hpos, hfield⟩ := h.loaded.cell hc.bound _ _ hcell
  refine ⟨hpos, ?_⟩
  have hposition : s.rs.position c = (s.row - 1) * reply.fields.length + c := by
    have hle : (s.row - 1 + 1) * reply.fields.length ≤ pRowCount * reply.fields.length :=
      Nat.mul_le_mul_right _ hrow'
    have hcells := hc.cells_lt
    rw [Nat.succ_mul] at hle
    rw [SqlResultSet.position, h.currRowIdx, h.loaded.fieldCount, toInt32_of_lt hc.columns_lt,
      show ((s.row : Int) - 1) = ((s.row - 1 : Nat) : Int) by omega, ← Nat.cast_mul,
      ← Nat.cast_add, toSizeT_of_lt (by omega) (by omega), Int.toNat_natCast]
  have hlt := hc.rows_lt
  have hwithin : ¬ (s.rs.m_currRowIdx < 0 ∨ s.rs.m_currRowIdx ≥ s.rs.m_rowCount ∨
      (c : Int) ≥ s.rs.m_fieldCount) := by
    rw [h.currRowIdx, h.loaded.rowCount, h.loaded.fieldCount, toInt32_of_lt hc.columns_lt, toInt64]
    omega
  have hempty : (SqlField.ofCell (reply.cell (s.row - 1) c)).isEmpty = false := by
    cases reply.cell (s.row - 1) c <;> rfl
  rw [SqlResultSet.getField, if_neg hwithin, hposition, hfield, Option.map_some, hempty]
  rfl

theorem Reading.fetch (h : Reading reply pRowCount s) (hc : Complete reply pRowCount) :
    s.rs.fetch =
      if s.row < pRowCount then
        (true, { s.rs with m_currRowIdx := s.rs.m_currRowIdx + 1, m_currColIdx := 0 })
      else (false, s.rs) := by
  have hlt := hc.rows_lt
  have hiff : s.rs.m_currRowIdx + 1 ≥ s.rs.m_rowCount ↔ ¬ s.row < pRowCount := by
    rw [h.currRowIdx, h.loaded.rowCount, toInt64]
    omega
  rw [SqlResultSet.fetch]
  by_cases hrow : s.row < pRowCount
  · rw [if_neg (fun hge => hiff.mp hge hrow), if_pos hrow]
  · rw [if_pos (hiff.mpr hrow), if_neg hrow]

theorem Reading.get (h : Reading reply pRowCount s) (hc : Complete reply pRowCount)
    (hrow : 0 < s.row) (hcol : s.col < reply.fields.length) (g : SqlGetter) :
    s.rs.get g = (g.ofField (.ofCell (reply.cell (s.row - 1) s.col))).map fun r =>
      (r, s.rs.nextColumn) := by
  rw [SqlResultSet.get_eq, SqlResultSet.read, h.currColIdx, (h.getField hc hrow hcol).2]
  rfl

/-- A call that suits its cell comes to its end and returns what it should. -/
theorem Reading.step (h : Reading reply pRowCount s) (hc : Complete reply pRowCount) {c : ReadCall}
    (hpossible : Possible reply s c) (hsuits : Suits reply s c) :
    ∃ t, step pRowCount s c = some t ∧ t.returned = some (expected reply pRowCount s c) ∧
      Reading reply pRowCount t := by
  cases c with
  | fetch =>
    rw [ReadRun.step, h.fetch hc]
    by_cases hrow : s.row < pRowCount
    · rw [if_pos hrow, if_pos hrow]
      refine ⟨_, rfl, by rw [expected, decide_eq_true hrow], ?_, ?_, rfl, hrow, Nat.zero_le _⟩
      · exact ⟨h.loaded.rowCount, h.loaded.fieldCount, h.loaded.size, h.loaded.cell, h.loaded.rest⟩
      · show s.rs.m_currRowIdx + 1 = ((s.row + 1 : Nat) : Int) - 1
        rw [h.currRowIdx]
        omega
    · rw [if_neg hrow, if_neg hrow]
      exact ⟨_, rfl, by rw [expected, decide_eq_false hrow],
        h.loaded, h.currRowIdx, h.currColIdx, h.row_le, h.col_le⟩
  | get g =>
    obtain ⟨hrow, hcol⟩ := hpossible
    have hfield := (SqlGetter.ofField_eq_iff (h.getField hc hrow hcol).1).mpr hsuits
    rw [ReadRun.step, h.get hc hrow hcol, hfield]
    refine ⟨_, rfl, rfl, ?_, h.currRowIdx, ?_, h.row_le, hcol⟩
    · exact ⟨h.loaded.rowCount, h.loaded.fieldCount, h.loaded.size, h.loaded.cell, h.loaded.rest⟩
    · have hlt := hc.columns_lt
      show toInt32 (s.rs.m_currColIdx + 1) = ((s.col + 1 : Nat) : Int)
      rw [h.currColIdx, toInt32_of_bounds (by omega) (by omega)]
      rfl
  | emptyField c =>
    obtain ⟨hrow, hcol⟩ := hpossible
    have hnull : reply.cell (s.row - 1) c = none := hsuits
    rw [ReadRun.step, SqlResultSet.emptyField, (h.getField hc hrow hcol).2, expected, hnull]
    exact ⟨_, rfl, rfl, h.loaded, h.currRowIdx, h.currColIdx, h.row_le, h.col_le⟩

/-- A call that returns what it should suits its cell. -/
theorem Reading.suits (h : Reading reply pRowCount s) (hc : Complete reply pRowCount) {c : ReadCall}
    (hpossible : Possible reply s c) (hstep : ReadRun.step pRowCount s c = some t)
    (hreturned : t.returned = some (expected reply pRowCount s c)) : Suits reply s c := by
  cases c with
  | fetch => trivial
  | get g =>
    obtain ⟨hrow, hcol⟩ := hpossible
    rw [ReadRun.step, h.get hc hrow hcol, Option.map_map, Option.map_eq_some_iff] at hstep
    obtain ⟨r, hr, rfl⟩ := hstep
    obtain rfl := Option.some.inj hreturned
    exact (SqlGetter.ofField_eq_iff (h.getField hc hrow hcol).1).mp hr
  | emptyField c =>
    obtain ⟨hrow, hcol⟩ := hpossible
    rw [ReadRun.step, SqlResultSet.emptyField, (h.getField hc hrow hcol).2] at hstep
    obtain rfl := Option.some.inj hstep
    have hflag := SqlReturn.flag.inj (Option.some.inj hreturned)
    exact Option.isNone_iff_eq_none.mp hflag.symm

/-- In every run of fetches, getters and questions for empty fields on a result set with all its rows,
the calls return what they should, exactly if each suits its cell. -/
theorem reads_right_iff {sizeofTime : Nat} {rs : SqlResultSet}
    (h : SqlResultSet.setResult sizeofTime {} reply pRowCount = .ok rs) (hbound : reply.bound = true)
    (hrows : (StmtFetch.rows reply.fetches).length = pRowCount) (hpos : 0 < reply.fields.length)
    (hlt : reply.fields.length < 2 ^ 31) {cs : List ReadCall}
    (hpossible : Allowed (Possible reply) (step pRowCount) ⟨rs, 0, 0, none⟩ cs) :
    Safe (fun s c t => t.returned = some (expected reply pRowCount s c)) (step pRowCount)
        ⟨rs, 0, 0, none⟩ cs ↔
      Allowed (Suits reply) (step pRowCount) ⟨rs, 0, 0, none⟩ cs := by
  obtain ⟨hloaded, hrow, hcol, hcells⟩ := SqlResultSet.setResult_loaded h
  have hlength : reply.cells.length = pRowCount * reply.fields.length := by
    have hwidth (row : MysqlRow) :
        (reply.fields.zipIdx.map fun f => (f.1, row f.2)).length = reply.fields.length := by
      rw [List.length_map, List.length_zipIdx]
    rw [MysqlReply.cells, length_rowMajor hwidth, hrows]
  have hmod : pRowCount * reply.fields.length % 2 ^ 32 < 2 ^ 32 := Nat.mod_lt _ (by decide)
  have hc : Complete reply pRowCount :=
    ⟨hbound, hrows, hpos, hlt, by have hle := hcells hbound; omega⟩
  refine safe_iff_allowed (I := Reading reply pRowCount) ?_ ?_
    ⟨hloaded, hrow, hcol, Nat.zero_le _, Nat.zero_le _⟩ hpossible
  · intro s c hs hp hsuits
    exact hs.step hc hp hsuits
  · intro s c t hs hp hstep hreturned
    exact hs.suits hc hp hstep hreturned

instance (reply : MysqlReply) (s : ReadRun) : (c : ReadCall) → Decidable (Possible reply s c)
  | .fetch => .isTrue trivial
  | .get _ => inferInstanceAs (Decidable (_ ∧ _))
  | .emptyField _ => inferInstanceAs (Decidable (_ ∧ _))

instance (reply : MysqlReply) (s : ReadRun) : (c : ReadCall) → Decidable (Suits reply s c)
  | .fetch => .isTrue trivial
  | .get g => g.suitsDecidable _
  | .emptyField _ => inferInstanceAs (Decidable (_ = _))

/-- A row with a `TINYINT` and a NULL text. -/
theorem reads_right_row :
    ∃ (reply : MysqlReply) (rs : SqlResultSet), SqlResultSet.setResult 40 {} reply 1 = .ok rs ∧
      Safe (fun s c t => t.returned = some (expected reply 1 s c)) (step 1) ⟨rs, 0, 0, none⟩
        [.fetch, .get (.number .int8), .emptyField 1, .get .string, .fetch] := by
  have hset : SqlResultSet.setResult 40 {}
      { fields := [⟨.tiny, 0, 4, 0⟩, ⟨.string, 0, 8, 0⟩], fields_lt := by decide, bound := true
        fetches := [.row fun c => if c = 0 then some [5] else none, .noData] } 1 =
      .ok { m_fields := [{ m_buff := some [5], m_len := 1 }, { m_buff := some [], m_len := 0 }]
            m_rowCount := 1, m_fieldCount := 2 } := by
    decide +kernel
  exact ⟨_, _, hset,
    (reads_right_iff hset rfl rfl (by decide) (by decide) (by decide +kernel)).mpr
      (by decide +kernel)⟩

/-- `getInt8` of a NULL reads a byte of an empty buffer, and `emptyField` is true of a value. -/
theorem reads_null_number :
    ∃ (reply : MysqlReply) (rs : SqlResultSet), SqlResultSet.setResult 40 {} reply 1 = .ok rs ∧
      reply.cell 0 0 = none ∧ reply.cell 0 1 = some [5] ∧
      run (step 1) ⟨rs, 0, 0, none⟩ [.fetch, .get (.number .int8)] = none ∧
      (run (step 1) ⟨rs, 0, 0, none⟩ [.fetch, .emptyField 1]).map ReadRun.returned =
        some (some (.flag true)) := by
  refine ⟨{ fields := [⟨.tiny, 0, 4, 0⟩, ⟨.tiny, 0, 4, 0⟩], fields_lt := by decide, bound := true
            fetches := [.row fun c => if c = 1 then some [5] else none, .noData] },
    { m_fields := [{ m_buff := some [], m_len := 0 }, { m_buff := some [5], m_len := 1 }]
      m_rowCount := 1, m_fieldCount := 2 }, ?_, rfl, rfl, ?_, ?_⟩
  · decide +kernel
  · rfl
  · rfl

end ReadRun

end LuaServer
