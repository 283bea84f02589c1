import LuaServer.Common.Text
import LuaServer.Reasoning.Fields
import LuaServer.Reasoning.MachineInt

/-!
# CsvParser — a table as the text of its lines

The constructor reads a file line by line: the first line behind the skipped ones names the columns,
every other one is a row.  A value is looked up by the name of its column and goes through a stream.

A table is read back exactly if that stream stops at the end of each cell, and no row ends with an
empty cell, which `getline` does not see.
-/

open Reasoning

namespace LuaServer

structure CsvRow where
  values : List (List UInt8)
deriving DecidableEq

structure CsvParser where
  sep : UInt8
  header : List (List UInt8)
  content : List CsvRow
deriving DecidableEq

/-- The parser with the variables of its constructor. -/
structure CsvLoad where
  parser : CsvParser
  startline : Int
  row : Int
deriving DecidableEq

/-! ## 1. Reading -/

namespace CsvParser

/-- `while (std::getline(ss, item, _sep))`. -/
def items (sep : UInt8) : Nat → List UInt8 → List (List UInt8)
  -- out of fuel
  | 0, _ => []
  | fuel + 1, ss =>
    match getlineTo sep ss with
    | some (item, ss) => item :: items sep fuel ss
    | none => []

def parseHeader (self : CsvParser) (line : List UInt8) : CsvParser :=
  { self with header := self.header ++ items self.sep (line.length + 1) line }

def parseContent (self : CsvParser) (line : List UInt8) : CsvParser :=
  { self with content := self.content ++ [⟨items self.sep (line.length + 1) line⟩] }

end CsvParser

namespace CsvLoad

/-- The body of the loop. -/
def line (self : CsvLoad) (line : List UInt8) : CsvLoad :=
  if line = [] then self
  else
    -- `startline && --startline`
    let startline := if self.startline = 0 then 0 else toInt32 (self.startline - 1)
    if startline ≠ 0 then { self with startline }
    else
      let row := toInt32 (self.row + 1)
      let parser :=
        if row = 1 then self.parser.parseHeader line else self.parser.parseContent line
      ⟨parser, startline, row⟩

/-- `while (ifile.good())`: the line that runs into the end of the file is the last one. -/
def readLoop : Nat → CsvLoad → List UInt8 → CsvLoad
  -- out of fuel
  | 0, self, _ => self
  | fuel + 1, self, ifile =>
    let self := self.line (ifile.takeWhile (· ≠ 10))
    if 10 ∈ ifile then readLoop fuel self ((ifile.dropWhile (· ≠ 10)).drop 1) else self

end CsvLoad

namespace CsvParser

/-- A file that does not open is logged. -/
def construct (file : Option (List UInt8)) (startline : Int) (sep : UInt8) : CsvParser :=
  match file with
  | some text => (CsvLoad.readLoop (text.length + 1) ⟨⟨sep, [], []⟩, startline, 0⟩ text).parser
  | none => ⟨sep, [], []⟩

def row (self : CsvParser) : Int := toInt32 self.content.length

end CsvParser

/-- `getValue` of a `std::string`; none is an index past the values. -/
def CsvRow.getValue (self : CsvRow) (idx : Int) (defvalue : List UInt8) : Option (List UInt8) :=
  self.values[toSizeT idx]?.map fun value => extract value defvalue

/-- None is an index past the rows or the values, or a search with no end: `i` has 32 bits. -/
def CsvParser.getValue (self : CsvParser) (row : Int) (name defvalue : List UInt8) :
    Option (List UInt8) :=
  match self.header.findIdx? (· = name) with
  | some i =>
    if i < 2 ^ 32 then
      self.content[toSizeT (toInt32 (row - 1))]?.bind fun csvrow =>
        csvrow.getValue (toInt32 i) defvalue
    else none
  | none => if self.header.length < 2 ^ 32 then some [] else none

/-! ## 2. The lines of a text -/

theorem CsvParser.items_eq (sep : UInt8) {fuel : Nat} {ss : List UInt8} (h : ss.length < fuel) :
    items sep fuel ss = trimEnd (ss.splitOn sep) := by
  refine loop_eq_of_cut sep (items sep) (fun ss => trimEnd (ss.splitOn sep)) ?_ ?_ h
  · intro fuel ss hnot
    rw [items, List.splitOn_eq_singleton hnot, trimEnd_singleton]
    by_cases hnil : ss = []
    · rw [if_pos hnil, hnil]
      rfl
    · have hrest : items sep fuel [] = [] := by cases fuel <;> rfl
      rw [if_neg hnil, getlineTo_eq hnil hnot]
      exact congrArg (ss :: ·) hrest
  · intro fuel item rest hnot ih
    rw [items, getlineTo_append hnot, List.splitOn_append_cons_self_of_not_mem hnot,
      trimEnd_cons (List.splitOn_ne_nil sep rest), ← ih]

theorem CsvLoad.readLoop_eq (self : CsvLoad) {fuel : Nat} {ifile : List UInt8}
    (h : ifile.length < fuel) :
    readLoop fuel self ifile = (ifile.splitOn 10).foldl line self := by
  refine congrFun (loop_eq_of_cut 10 (fun fuel ifile self => readLoop fuel self ifile)
    (fun ifile self => (ifile.splitOn 10).foldl line self) ?_ ?_ h) self
  · intro fuel ifile hnot
    funext self
    simp only [readLoop, if_neg hnot, takeWhile_ne_self hnot, List.splitOn_eq_singleton hnot]
    rfl
  · intro fuel first rest hnot ih
    funext self
    have hmem : 10 ∈ first ++ 10 :: rest := by simp
    simp only [readLoop, if_pos hmem, takeWhile_ne hnot, dropWhile_ne hnot,
      List.splitOn_append_cons_self_of_not_mem hnot, List.foldl_cons]
    exact congrFun ih _

/-! ## 3. Tables -/

/-- A header of distinct names and rows of its width; a cell has no separator and no line break. -/
structure CsvTable where
  sep : UInt8
  names : List (List UInt8)
  rows : List (List (List UInt8))
  sep_ne : 10 ≠ sep
  two_columns : 2 ≤ names.length
  names_nodup : names.Nodup
  names_ne : ∀ name ∈ names, name ≠ []
  width : ∀ row ∈ rows, row.length = names.length
  plain : ∀ row ∈ names :: rows, ∀ cell ∈ row, sep ∉ cell ∧ 10 ∉ cell

namespace CsvTable

variable (t : CsvTable)

/-- Cells joined with the separator and rows with newlines. -/
def text : List UInt8 := [10].intercalate ((t.names :: t.rows).map [t.sep].intercalate)

def parsed : CsvParser := CsvParser.construct (some t.text) 1 t.sep

/-- Every cell is what `getValue` gives for its row, counted from one, and the name of its column. -/
def ReadBack : Prop :=
  t.parsed.row = t.rows.length ∧
    ∀ (r : Nat) row, t.rows[r]? = some row →
      ∀ (i : Nat) name cell, t.names[i]? = some name → row[i]? = some cell →
        t.parsed.getValue (r + 1) name [] = some cell

variable {t}

theorem two_cells {row : List (List UInt8)} (h : row ∈ t.names :: t.rows) : 2 ≤ row.length := by
  rcases List.mem_cons.mp h with rfl | h
  · exact t.two_columns
  · exact t.width row h ▸ t.two_columns

theorem items_line {row : List (List UInt8)} (h : row ∈ t.names :: t.rows) :
    CsvParser.items t.sep (([t.sep].intercalate row).length + 1) ([t.sep].intercalate row) =
      trimEnd row := by
  have hlen := two_cells h
  rw [CsvParser.items_eq t.sep (Nat.lt_succ_self _), List.splitOn_intercalate]
  · exact fun cell hcell => (t.plain row h cell hcell).1
  · rintro rfl
    exact absurd hlen (by decide)

theorem line_ne {row : List (List UInt8)} (h : row ∈ t.names :: t.rows) :
    [t.sep].intercalate row ≠ [] := by
  have hlen := two_cells h
  match row, hlen with
  | first :: second :: rest, _ => simp

theorem getLast?_names : t.names.getLast? ≠ some [] :=
  fun h => t.names_ne [] (List.mem_of_getLast? h) rfl

/-- The rows behind the header; the counter of the rows comes back to 1 after 2^32 lines only. -/
theorem foldl_line (parser : CsvParser) (hsep : parser.sep = t.sep)
    {rows : List (List (List UInt8))} (hrows : ∀ row ∈ rows, row ∈ t.rows) {k : Nat} (hk : 0 < k)
    (hle : k + rows.length < 2 ^ 32) :
    ((rows.map [t.sep].intercalate).foldl CsvLoad.line ⟨parser, 0, toInt32 k⟩).parser =
      { parser with content := parser.content ++ rows.map fun row => ⟨trimEnd row⟩ } := by
  induction rows generalizing parser k with
  | nil => simp
  | cons row rows ih =>
    obtain ⟨hrow, hrest⟩ := List.forall_mem_cons.mp hrows
    have hmem : row ∈ t.names :: t.rows := List.mem_cons_of_mem _ hrow
    have hnext : toInt32 (toInt32 k + 1) = toInt32 (k + 1 : Nat) := toInt32_add_toInt32 k 1
    have hne : toInt32 (k + 1 : Nat) ≠ 1 := by
      rw [List.length_cons] at hle
      unfold toInt32
      omega
    have hline : CsvLoad.line ⟨parser, 0, toInt32 k⟩ ([t.sep].intercalate row) =
        ⟨parser.parseContent ([t.sep].intercalate row), 0, toInt32 (k + 1 : Nat)⟩ := by
      rw [CsvLoad.line, if_neg (line_ne hmem)]
      simp only [if_true, ne_eq, not_true_eq_false, if_false, hnext, if_neg hne]
    rw [List.map_cons, List.foldl_cons, hline, ih]
    · rw [CsvParser.parseContent, hsep, items_line hmem, List.map_cons, List.append_assoc]
      rfl
    · exact hsep
    · exact hrest
    · exact Nat.succ_pos k
    · rw [List.length_cons] at hle
      omega

/-- The table as the parser has it. -/
theorem parsed_eq (h : t.rows.length < 2 ^ 31) :
    t.parsed = ⟨t.sep, t.names, t.rows.map fun row => ⟨trimEnd row⟩⟩ := by
  have hnames : t.names ∈ t.names :: t.rows := List.mem_cons_self
  have hline : CsvLoad.line ⟨⟨t.sep, [], []⟩, 1, 0⟩ ([t.sep].intercalate t.names) =
      ⟨⟨t.sep, t.names, []⟩, 0, toInt32 (1 : Nat)⟩ := by
    rw [CsvLoad.line, if_neg (line_ne hnames)]
    show CsvLoad.mk (CsvParser.parseHeader _ _) _ _ = _
    rw [CsvParser.parseHeader, items_line hnames, trimEnd_of_getLast? getLast?_names]
    rfl
  rw [parsed, CsvParser.construct, CsvLoad.readLoop_eq _ (Nat.lt_succ_self _), text,
    splitOn_lines t.sep_ne (List.cons_ne_nil _ _) fun row hrow cell hcell =>
      (t.plain row hrow cell hcell).2,
    List.map_cons, List.foldl_cons, hline,
    foldl_line _ rfl (fun row hrow => hrow) Nat.one_pos (by omega)]
  rfl

theorem findIdx?_names {i : Nat} {name : List UInt8} (h : t.names[i]? = some name) :
    t.names.findIdx? (· = name) = some i := by
  obtain ⟨hi, hget⟩ := List.getElem?_eq_some_iff.mp h
  apply List.findIdx?_eq_some_iff_getElem.mpr
  refine ⟨hi, by simpa using hget, fun j hj heq => ?_⟩
  have hne := List.pairwise_iff_getElem.mp t.names_nodup j i (by omega) hi hj
  exact hne ((of_decide_eq_true heq).trans hget.symm)

section
variable {r i : Nat} {row : List (List UInt8)} {name : List UInt8} (h : t.rows.length < 2 ^ 31)
  (hrow : t.rows[r]? = some row) (hname : t.names[i]? = some name)

include h hrow hname

theorem getValue_parsed :
    t.parsed.getValue (r + 1) name [] =
      if i < 2 ^ 32 then (trimEnd row)[toSizeT (toInt32 i)]?.map fun value => extract value []
      else none := by
  have hr : r < t.rows.length := (List.getElem?_eq_some_iff.mp hrow).1
  have hidx : toSizeT (toInt32 (r + 1 - 1)) = r := by
    unfold toSizeT toInt32
    omega
  rw [parsed_eq h, CsvParser.getValue, findIdx?_names hname]
  simp only [hidx, List.getElem?_map, hrow, Option.map_some, Option.bind_some]
  rfl

/-- Of a row with an `int` of columns each value is the first word of its cell. -/
theorem getValue_of_le (hi : i < 2 ^ 31) :
    t.parsed.getValue (r + 1) name [] = (trimEnd row)[i]?.map fun value => extract value [] := by
  have hidx : toSizeT (toInt32 i) = i := by
    unfold toSizeT toInt32
    omega
  rw [getValue_parsed h hrow hname, if_pos (by omega), hidx]

end

/-- A row that is read back has as many columns as an `int` counts. -/
theorem width_le (h : t.ReadBack) (hlt : t.rows.length < 2 ^ 31) {r : Nat} {row : List (List UInt8)}
    (hrow : t.rows[r]? = some row) : row.length ≤ 2 ^ 31 := by
  by_contra hlong
  have hwidth := t.width row (List.mem_of_getElem? hrow)
  have htrim := length_trimEnd_le row
  by_cases hmore : 2 ^ 32 < row.length
  · -- column 2^32 is never reached
    have hread := h.2 r row hrow (2 ^ 32) _ _ (List.getElem?_eq_getElem (by omega))
      (List.getElem?_eq_getElem hmore)
    rw [getValue_parsed hlt hrow (List.getElem?_eq_getElem (by omega)),
      if_neg (Nat.lt_irrefl _)] at hread
    cases hread
  · -- column 2^31 has a negative index
    have hread := h.2 r row hrow (2 ^ 31) _ _ (List.getElem?_eq_getElem (by omega))
      (List.getElem?_eq_getElem (by omega))
    have hidx : (trimEnd row)[toSizeT (toInt32 (2 ^ 31 : Nat))]? = none := by
      apply List.getElem?_eq_none
      have hval : toSizeT (toInt32 (2 ^ 31 : Nat)) = 2 ^ 64 - 2 ^ 31 := by decide
      omega
    rw [getValue_parsed hlt hrow (List.getElem?_eq_getElem (by omega)), if_pos (by omega),
      hidx] at hread
    cases hread

/-- The rows are read back exactly if none has an empty cell at its end and no cell white space,
and the `int`s of the parser count the rows and the columns. -/
theorem readBack_iff (t : CsvTable) :
    t.ReadBack ↔ t.rows.length < 2 ^ 31 ∧ ∀ row ∈ t.rows,
      row.length ≤ 2 ^ 31 ∧ row.getLast? ≠ some [] ∧ ∀ cell ∈ row, ∀ c ∈ cell, isSpace c = false := by
  constructor
  · intro h
    have hlt : t.rows.length < 2 ^ 31 := by
      have hbounds := toInt32_bounds t.parsed.content.length
      have hcount : toInt32 t.parsed.content.length = t.rows.length := h.1
      omega
    refine ⟨hlt, fun row hmem => ?_⟩
    obtain ⟨r, hrow⟩ := List.getElem?_of_mem hmem
    have hwidth := t.width row hmem
    have hle := width_le h hlt hrow
    -- what the read of column `i` gives
    have hread : ∀ (i : Nat) (hi : i < row.length),
        ((trimEnd row)[i]?.map fun value => extract value []) = some row[i] := by
      intro i hi
      have hname := List.getElem?_eq_getElem (l := t.names) (i := i) (hwidth ▸ hi)
      rw [← getValue_of_le hlt hrow hname (by omega)]
      exact h.2 r row hrow i _ _ hname (List.getElem?_eq_getElem hi)
    have hlast : row.getLast? ≠ some [] := by
      intro hnil
      have htrim := length_trimEnd_lt hnil
      have hread := hread (row.length - 1) (by omega)
      rw [List.getElem?_eq_none (by omega)] at hread
      cases hread
    refine ⟨hle, hlast, fun cell hcell => ?_⟩
    obtain ⟨i, hi, rfl⟩ := List.getElem_of_mem hcell
    have hread := hread i hi
    rw [trimEnd_of_getLast? hlast, List.getElem?_eq_getElem hi, Option.map_some] at hread
    exact extract_eq_iff.mp (Option.some.inj hread)
  · rintro ⟨hlt, hrows⟩
    constructor
    · rw [parsed_eq hlt, CsvParser.row, List.length_map, toInt32_of_lt hlt]
    · intro r row hrow i name cell hname hcell
      obtain ⟨hle, hlast, hspace⟩ := hrows row (List.mem_of_getElem? hrow)
      have hi : i < row.length := (List.getElem?_eq_some_iff.mp hcell).1
      rw [getValue_of_le hlt hrow hname (by omega), trimEnd_of_getLast? hlast, hcell,
        Option.map_some]
      exact congrArg some (extract_eq_iff.mpr (hspace cell (List.mem_of_getElem? hcell)))

/-- A table with an empty cell in front of another. -/
theorem readBack_iff_two : ∃ t : CsvTable, t.text = ascii "id,name,age\n1,,30\n2,Ann,31" ∧
    t.ReadBack ∧ t.parsed.getValue 2 (ascii "name") [] = some (ascii "Ann") := by
  let names := [ascii "id", ascii "name", ascii "age"]
  let t : CsvTable := ⟨44, names, [[ascii "1", [], ascii "30"],
    [ascii "2", ascii "Ann", ascii "31"]], by decide, by decide, by decide, by decide, by decide,
    by decide⟩
  have hrows : ∀ row ∈ t.rows, row.length ≤ 2 ^ 31 ∧ row.getLast? ≠ some [] ∧
      ∀ cell ∈ row, ∀ c ∈ cell, isSpace c = false := by decide +kernel
  exact ⟨t, by decide +kernel, (readBack_iff t).mpr ⟨by decide, hrows⟩, by decide +kernel⟩

/-- The columns `id` and `name` with an empty name, and with the name `New York`. -/
theorem not_readBack :
    (∃ t : CsvTable, t.text = ascii "id,name\n1," ∧
      t.parsed.getValue 1 (ascii "name") [] = none ∧ ¬ t.ReadBack) ∧
    ∃ t : CsvTable, t.text = ascii "id,name\n1,New York" ∧
      t.parsed.getValue 1 (ascii "name") [] = some (ascii "New") ∧ ¬ t.ReadBack := by
  let names := [ascii "id", ascii "name"]
  constructor
  · let t : CsvTable := ⟨44, names, [[ascii "1", []]], by decide, by decide, by decide, by decide,
      by decide, by decide⟩
    have hvalue : t.parsed.getValue 1 (ascii "name") [] = none := by decide +kernel
    refine ⟨t, by decide +kernel, hvalue, fun h => ?_⟩
    have hread := h.2 0 _ rfl 1 _ _ rfl rfl
    rw [show ((0 : Nat) : Int) + 1 = 1 from rfl, hvalue] at hread
    cases hread
  · let t : CsvTable := ⟨44, names, [[ascii "1", ascii "New York"]], by decide, by decide, by decide,
      by decide, by decide, by decide⟩
    have hvalue : t.parsed.getValue 1 (ascii "name") [] = some (ascii "New") := by decide +kernel
    refine ⟨t, by decide +kernel, hvalue, fun h => ?_⟩
    have hread := h.2 0 _ rfl 1 _ _ rfl rfl
    rw [show ((0 : Nat) : Int) + 1 = 1 from rfl, hvalue] at hread
    exact absurd hread (by decide)

end CsvTable

end LuaServer
