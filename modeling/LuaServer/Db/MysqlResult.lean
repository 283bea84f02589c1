import LuaServer.Common.Text
import LuaServer.Reasoning.MachineInt
import LuaServer.Reasoning.Transition

/-!
# MysqlResult — walking through a stored result

`fetch` moves to the next row and `getData` through its columns.  The lengths that go with the columns
are asked for in `setResult`, when the library has none.

`mysql_fetch_row` and `mysql_fetch_lengths` are parameters.
-/

open Reasoning

namespace LuaServer

/-- Its cells; none is a NULL of the table. -/
abbrev StoredRow := List (Option (List UInt8))

/-! ## 1. The result -/

/-- None is a null pointer. -/
structure MysqlResult (Res : Type) where
  pResult : Option Res
  aRow : Option StoredRow
  pos : Nat
  lengths : Option (List Nat)
deriving DecidableEq

namespace MysqlResult

variable {Res : Type} (mysql_fetch_row : Res → Option StoredRow × Res)
  (mysql_fetch_lengths : Res → Option (List Nat)) (self : MysqlResult Res)

/-- `aRow` is set by the first `fetch`. -/
def construct : MysqlResult Res := ⟨none, none, 0, none⟩

def setResult (result : Option Res) : MysqlResult Res :=
  { self with pResult := result, lengths := result.bind mysql_fetch_lengths }

/-- None dereferences a null pointer. -/
def fetch : Option (Bool × MysqlResult Res) :=
  self.pResult.map fun pResult =>
    let row := mysql_fetch_row pResult
    (row.1.isSome, { self with pResult := some row.2, aRow := row.1, pos := 0 })

/-- `aRow[pos++]`; none is a null pointer or a column that the row does not have. -/
def getData : Option (Option (List UInt8) × MysqlResult Res) :=
  self.aRow.bind fun aRow => aRow[self.pos]?.map fun cell =>
    (cell, { self with pos := toUint32 (self.pos + 1) })

/-- The pointer and the `len` of `getData(len)`. -/
def getDataLen : Option ((Option (List UInt8) × Int) × MysqlResult Res) :=
  self.lengths.bind fun lengths => lengths[self.pos]?.bind fun len =>
    self.getData.map fun data => ((data.1, toInt32 len), data.2)

end MysqlResult

/-! ## 2. Runs -/

inductive MysqlCall
  | fetch
  | getData
  | getDataLen
deriving DecidableEq

namespace MysqlCall

variable {Res : Type} (mysql_fetch_row : Res → Option StoredRow × Res)
  (mysql_fetch_lengths : Res → Option (List Nat))

/-- A new result that is given what the library has stored. -/
def start (result : Res) : MysqlResult Res :=
  MysqlResult.construct.setResult mysql_fetch_lengths (some result)

def step (s : MysqlResult Res) : MysqlCall → Option (MysqlResult Res)
  | fetch => (s.fetch mysql_fetch_row).map Prod.snd
  | getData => s.getData.map Prod.snd
  | getDataLen => s.getDataLen.map Prod.snd

/-- A column is read behind a `fetch` that has found a row, and once. -/
def Possible (s : MysqlResult Res) : MysqlCall → Prop
  | fetch => True
  | getData | getDataLen => ∃ row ∈ s.aRow, s.pos < row.length

/-- The length is that of the cell whose pointer is returned. -/
def LengthMatches (s : MysqlResult Res) (c : MysqlCall) (_ : MysqlResult Res) : Prop :=
  c = getDataLen → ∃ cell len t, s.getDataLen = some ((cell, len), t) ∧ len = (cell.getD []).length

/-- What `setResult` leaves where the library has no lengths. -/
def NoLengths (s : MysqlResult Res) : Prop := s.pResult.isSome = true ∧ s.lengths = none

variable {mysql_fetch_row} {mysql_fetch_lengths} {s : MysqlResult Res} {c : MysqlCall}

theorem getData_of_possible (h : Possible s getData) : ∃ cell t, s.getData = some (cell, t) ∧
    t = { s with pos := toUint32 (s.pos + 1) } := by
  obtain ⟨row, hrow, hpos⟩ := h
  rw [Option.mem_def] at hrow
  exact ⟨row[s.pos], _, by simp [MysqlResult.getData, hrow, hpos], rfl⟩

/-- A call but for `getData(len)` comes to its end and leaves the lengths as they are. -/
theorem step_of_ne (hs : NoLengths s) (hc : Possible s c) (hne : c ≠ getDataLen) :
    ∃ t, step mysql_fetch_row s c = some t ∧ NoLengths t := by
  cases c with
  | fetch =>
    obtain ⟨result, hresult⟩ := Option.isSome_iff_exists.mp hs.1
    refine ⟨{ s with
      pResult := some (mysql_fetch_row result).2
      aRow := (mysql_fetch_row result).1
      pos := 0 }, ?_, rfl, hs.2⟩
    rw [step, MysqlResult.fetch, hresult]
    rfl
  | getData =>
    obtain ⟨cell, t, hdata, ht⟩ := getData_of_possible hc
    refine ⟨t, ?_, ?_⟩
    · rw [step, hdata, Option.map_some]
    · rw [ht]
      exact hs
  | getDataLen => exact absurd rfl hne

theorem step_getDataLen (hs : NoLengths s) : step mysql_fetch_row s getDataLen = none := by
  rw [step, MysqlResult.getDataLen, hs.2]
  rfl

/-- The lengths match in the runs without a `getData(len)` only: the library gives none before the first
row is fetched. -/
theorem lengths_match_iff {result : Res} (hnull : mysql_fetch_lengths result = none)
    {calls : List MysqlCall}
    (h : Allowed Possible (step mysql_fetch_row) (start mysql_fetch_lengths result) calls) :
    Safe LengthMatches (step mysql_fetch_row) (start mysql_fetch_lengths result) calls ↔
      ∀ c ∈ calls, c ≠ getDataLen := by
  apply safe_iff_forall (I := NoLengths) ?_ ?_ ⟨rfl, hnull⟩ h
  · intro s c hs hc hne
    obtain ⟨t, ht, hno⟩ := step_of_ne hs hc hne
    exact ⟨t, ht, fun heq => absurd heq hne, hno⟩
  · rintro s c t hs - ht - rfl
    rw [step_getDataLen hs] at ht
    cases ht

end MysqlCall

/-! ## 3. A result in the memory of the client -/

/-- The rows not fetched yet, and the row fetched last. -/
structure StoredResult where
  data : List StoredRow
  current_row : Option StoredRow
deriving DecidableEq

namespace StoredResult

def fetch_row (self : StoredResult) : Option StoredRow × StoredResult :=
  match self.data with
  | [] => (none, ⟨[], none⟩)
  | row :: data => (some row, ⟨data, some row⟩)

/-- A NULL of the table has length 0. -/
def fetch_lengths (self : StoredResult) : Option (List Nat) :=
  self.current_row.map fun row => row.map fun cell => (cell.getD []).length

end StoredResult

namespace MysqlCall

instance {Res : Type} (s : MysqlResult Res) : (c : MysqlCall) → Decidable (Possible s c)
  | fetch => .isTrue trivial
  | getData | getDataLen => inferInstanceAs (Decidable (∃ _ ∈ _, _))

/-- Two rows of two columns, the second read with `getData()` only. -/
theorem lengths_match_two_rows :
    Safe LengthMatches (step StoredResult.fetch_row)
      (start StoredResult.fetch_lengths
        ⟨[[some (ascii "1"), none], [some (ascii "2"), some (ascii "jw")]], none⟩)
      [fetch, fetch, getData, getData, fetch] :=
  (lengths_match_iff rfl (by decide +kernel)).mpr (by decide)

/-- One row of one column. -/
theorem lengths_match_fails :
    ∃ calls, Allowed Possible (step StoredResult.fetch_row)
        (start StoredResult.fetch_lengths ⟨[[some (ascii "jw")]], none⟩) calls ∧
      ¬ Safe LengthMatches (step StoredResult.fetch_row)
        (start StoredResult.fetch_lengths ⟨[[some (ascii "jw")]], none⟩) calls := by
  refine ⟨[fetch, getDataLen], by decide +kernel, ?_⟩
  rintro ⟨t, ht, -, u, hu, -⟩
  cases ht
  cases hu

end MysqlCall

end LuaServer
