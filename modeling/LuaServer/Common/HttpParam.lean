import LuaServer.Common.Text
import LuaServer.Reasoning.Decimal
import LuaServer.Reasoning.Fields
import LuaServer.Reasoning.MachineInt
import LuaServer.Reasoning.SortedMap

/-!
# HttpParam — the parameters of a query

A query is cut at its separator and each piece at `=`; a piece that gives a key and a value is kept.
The lookups index the map, which makes an entry for a key that it does not have.

`std::stof` is a parameter.
-/

open Reasoning

namespace LuaServer

/-- `params` in the order of the keys. -/
structure HttpParam where
  params : List (List UInt8 × List UInt8)
deriving DecidableEq

namespace HttpParam

/-! ## 1. The parameters of a text -/

/-- The loop of `splite`; `rest` is the view from `pos1` on. -/
def spliteLoop (cut : UInt8) : Nat → List UInt8 → List (List UInt8)
  -- out of fuel
  | 0, _ => []
  | fuel + 1, rest =>
    match LuaServer.find [cut] rest with
    | some pos2 => rest.take pos2 :: spliteLoop cut fuel (rest.drop (pos2 + 1))
    | none => [rest]

/-- The pieces; the loop has one turn for each. -/
def splite (str_view : List UInt8) (cut : UInt8) : List (List UInt8) :=
  spliteLoop cut (str_view.length + 1) str_view

/-- The turn of the constructor for the piece `sub`. -/
def keep (params : List (List UInt8 × List UInt8)) (sub : List UInt8) :
    List (List UInt8 × List UInt8) :=
  match splite sub 61 with
  | [key, value] => assign key value params
  | _ => params

/-- `cut` is `&` unless another one is given. -/
def construct (str_v : List UInt8) (cut : UInt8) : HttpParam :=
  ⟨(splite str_v cut).foldl keep []⟩

/-! ## 2. Lookups -/

/-- What `std::stoi` and `std::stof` throw. -/
inductive ConversionError
  | invalidArgument
  | outOfRange
deriving DecidableEq

/-- `std::stoi`. -/
def stoi (text : List UInt8) : Except ConversionError Int :=
  let word := text.dropWhile isSpace
  let sign : Int := if word.head? = some 45 then -1 else 1
  let number := if word.head? = some 45 ∨ word.head? = some 43 then word.drop 1 else word
  let digits := number.takeWhile isDigit
  let value := sign * ofNumeral digits
  if digits = [] then .error .invalidArgument
  else if -2 ^ 31 ≤ value ∧ value < 2 ^ 31 then .ok value
  else .error .outOfRange

variable (self : HttpParam)

def find (key : List UInt8) : Bool := (self.params.lookup key).isSome

/-- `params[key]`, and the map afterwards. -/
def index (key : List UInt8) : List UInt8 × HttpParam :=
  match self.params.lookup key with
  | some value => (value, self)
  | none => ([], ⟨assign key [] self.params⟩)

def getStr (key : List UInt8) : List UInt8 × HttpParam := self.index key

def getInt (key : List UInt8) : Except ConversionError Int × HttpParam :=
  let si := self.index key
  (stoi si.1, si.2)

def getFloat {Float : Type} (stof : List UInt8 → Except ConversionError Float) (key : List UInt8) :
    Except ConversionError Float × HttpParam :=
  let sf := self.index key
  (stof sf.1, sf.2)

/-! ## 3. Cutting and joining -/

theorem spliteLoop_eq (cut : UInt8) {fuel : Nat} {rest : List UInt8} (h : rest.length < fuel) :
    spliteLoop cut fuel rest = rest.splitOn cut := by
  refine loop_eq_of_cut cut (spliteLoop cut) (List.splitOn cut) ?_ ?_ h
  · intro fuel rest hnot
    rw [spliteLoop, find_singleton, if_neg hnot, List.splitOn_eq_singleton hnot]
  · intro fuel piece rest hnot ih
    have hmem : cut ∈ piece ++ cut :: rest := by simp
    have hdrop : (piece ++ cut :: rest).drop (piece.length + 1) = rest := by
      rw [← List.drop_drop, List.drop_left]
      rfl
    rw [spliteLoop, find_singleton, if_pos hmem, takeWhile_ne hnot,
      List.splitOn_append_cons_self_of_not_mem hnot, ← ih]
    simp only [List.take_left, hdrop]

theorem splite_eq (str_view : List UInt8) (cut : UInt8) :
    splite str_view cut = str_view.splitOn cut :=
  spliteLoop_eq cut (Nat.lt_succ_self _)

theorem keep_eq_self (params : List (List UInt8 × List UInt8)) {sub : List UInt8} (h : 61 ∉ sub) :
    keep params sub = params := by
  rw [keep, splite_eq, List.splitOn_eq_singleton h]

/-- A piece is kept if its value has no further `=`. -/
theorem keep_pair (params : List (List UInt8 × List UInt8)) {key : List UInt8} (hkey : 61 ∉ key)
    (value : List UInt8) :
    keep params (key ++ 61 :: value) = if 61 ∈ value then params else assign key value params := by
  rw [keep, splite_eq, List.splitOn_append_cons_self_of_not_mem hkey]
  by_cases hvalue : 61 ∈ value
  · obtain ⟨first, second, rest, hsplit⟩ := splitOn_eq_cons_cons hvalue
    rw [hsplit, if_pos hvalue]
  · rw [List.splitOn_eq_singleton hvalue, if_neg hvalue]

/-! ## 4. What is kept of a query -/

/-- `k1=v1&k2=v2&...`, with any separator. -/
def query (cut : UInt8) (pairs : List (List UInt8 × List UInt8)) : List UInt8 :=
  [cut].intercalate (pairs.map fun e => e.1 ++ 61 :: e.2)

/-- The pairs whose value has no `=`; between pieces that are themselves cut at `=` there are none. -/
def kept (cut : UInt8) (pairs : List (List UInt8 × List UInt8)) : List (List UInt8 × List UInt8) :=
  if cut = 61 then [] else pairs.filter fun e => 61 ∉ e.2

section
variable {cut : UInt8} {pairs : List (List UInt8 × List UInt8)}

theorem foldl_keep (hkeys : ∀ e ∈ pairs, 61 ∉ e.1) (params : List (List UInt8 × List UInt8)) :
    (pairs.map fun e => e.1 ++ 61 :: e.2).foldl keep params =
      (pairs.filter fun e => 61 ∉ e.2).foldl (fun m e => assign e.1 e.2 m) params := by
  induction pairs generalizing params with
  | nil => rfl
  | cons e pairs ih =>
    obtain ⟨hkey, hrest⟩ := List.forall_mem_cons.mp hkeys
    rw [List.map_cons, List.foldl_cons, keep_pair params hkey, ih hrest]
    by_cases hvalue : 61 ∈ e.2
    · rw [if_pos hvalue, List.filter_cons_of_neg (by simpa using hvalue)]
    · rw [if_neg hvalue, List.filter_cons_of_pos (by simpa using hvalue), List.foldl_cons]

theorem construct_equals (text : List UInt8) : construct text 61 = ⟨[]⟩ := by
  have hkeep : ∀ subs : List (List UInt8), (∀ sub ∈ subs, 61 ∉ sub) → subs.foldl keep [] = [] := by
    intro subs
    induction subs with
    | nil =>
      intro _
      rfl
    | cons sub subs ih =>
      intro h
      obtain ⟨hsub, hrest⟩ := List.forall_mem_cons.mp h
      rw [List.foldl_cons, keep_eq_self [] hsub, ih hrest]
  rw [construct, splite_eq, hkeep _ fun sub => not_mem_of_mem_splitOn]

theorem construct_query (hkeys : ∀ e ∈ pairs, 61 ∉ e.1 ∧ cut ∉ e.1)
    (hvalues : ∀ e ∈ pairs, cut ∉ e.2) :
    construct (query cut pairs) cut =
      ⟨(kept cut pairs).foldl (fun m e => assign e.1 e.2 m) []⟩ := by
  by_cases hcut : cut = 61
  · subst hcut
    rw [construct_equals, kept, if_pos rfl]
    rfl
  rw [kept, if_neg hcut, construct, splite_eq, query]
  by_cases hnil : pairs = []
  · subst hnil
    rfl
  rw [List.splitOn_intercalate cut _ (by simpa using hnil), foldl_keep fun e he => (hkeys e he).1]
  intro sub hsub
  obtain ⟨e, he, rfl⟩ := List.mem_map.mp hsub
  simp [(hkeys e he).2, hvalues e he, hcut]

theorem lookup_construct_query (hkeys : ∀ e ∈ pairs, 61 ∉ e.1 ∧ cut ∉ e.1)
    (hvalues : ∀ e ∈ pairs, cut ∉ e.2) (key : List UInt8) :
    (construct (query cut pairs) cut).params.lookup key =
      (kept cut pairs).reverse.lookup key := by
  rw [construct_query hkeys hvalues, lookup_assignAll, List.lookup_nil, Option.or_none]

end

theorem getStr_fst (self : HttpParam) (key : List UInt8) :
    (self.getStr key).1 = (self.params.lookup key).getD [] := by
  rw [getStr, index]
  split <;> simp [*]

/-- The keys found are those of the kept pairs, and the value is that of the last one. -/
theorem find_getStr_query (cut : UInt8) (pairs : List (List UInt8 × List UInt8))
    (hkeys : ∀ e ∈ pairs, 61 ∉ e.1 ∧ cut ∉ e.1) (hvalues : ∀ e ∈ pairs, cut ∉ e.2)
    (key : List UInt8) :
    ((construct (query cut pairs) cut).find key = true ↔ ∃ e ∈ kept cut pairs, e.1 = key) ∧
      ∀ value, (kept cut pairs).reverse.lookup key = some value →
        ((construct (query cut pairs) cut).getStr key).1 = value := by
  have hlookup := lookup_construct_query hkeys hvalues key
  constructor
  · rw [find, hlookup, List.lookup_isSome_iff]
    simp only [List.mem_reverse, beq_iff_eq, @eq_comm _ key]
  · intro value hvalue
    rw [getStr_fst, hlookup, hvalue, Option.getD_some]

/-- `name=jw&token=&name=tom`. -/
theorem find_getStr_query_twice :
    (construct (ascii "name=jw&token=&name=tom") 38).find (ascii "token") = true ∧
      ((construct (ascii "name=jw&token=&name=tom") 38).getStr (ascii "name")).1 = ascii "tom" := by
  let pairs := [(ascii "name", ascii "jw"), (ascii "token", []), (ascii "name", ascii "tom")]
  have hquery : query 38 pairs = ascii "name=jw&token=&name=tom" := by decide +kernel
  have hkeys : ∀ e ∈ pairs, 61 ∉ e.1 ∧ 38 ∉ e.1 := by decide +kernel
  have hvalues : ∀ e ∈ pairs, 38 ∉ e.2 := by decide +kernel
  rw [← hquery]
  constructor
  · apply (find_getStr_query 38 pairs hkeys hvalues (ascii "token")).1.mpr
    decide +kernel
  · apply (find_getStr_query 38 pairs hkeys hvalues (ascii "name")).2
    decide +kernel

/-- The pair `k=a=b` is not found. -/
theorem find_query_equals :
    query 38 [(ascii "k", ascii "a=b")] = ascii "k=a=b" ∧
      (construct (ascii "k=a=b") 38).find (ascii "k") = false ∧
      ((construct (ascii "k=a=b") 38).getStr (ascii "k")).1 = [] := by
  decide +kernel

/-! ## 5. Lookups that write -/

inductive Lookup
  | getStr (key : List UInt8)
  | getInt (key : List UInt8)
  | getFloat (key : List UInt8)

namespace Lookup

def key : Lookup → List UInt8
  | getStr key => key
  | getInt key => key
  | getFloat key => key

end Lookup

section
variable {Float : Type} (stof : List UInt8 → Except ConversionError Float)

/-- The map after a lookup, whether the conversion throws or not. -/
def after (self : HttpParam) : Lookup → HttpParam
  | .getStr key => (self.getStr key).2
  | .getInt key => (self.getInt key).2
  | .getFloat key => (self.getFloat stof key).2

theorem after_eq_index (self : HttpParam) (l : Lookup) :
    self.after stof l = (self.index l.key).2 := by
  cases l <;> rfl

/-- An absent key gets an entry. -/
theorem lookup_index (self : HttpParam) (key key' : List UInt8) :
    (self.index key).2.params.lookup key' =
      (self.params.lookup key').or (if key' = key then some [] else none) := by
  rw [index]
  by_cases hkey : key' = key
  · subst hkey
    rw [if_pos rfl]
    cases hlookup : self.params.lookup key' with
    | none => exact lookup_assign_self key' [] self.params
    | some value =>
      rw [Option.some_or]
      exact hlookup
  · rw [if_neg hkey, Option.or_none]
    cases self.params.lookup key with
    | none => exact lookup_assign_of_ne hkey [] self.params
    | some value => rfl

theorem lookup_afterAll (self : HttpParam) (calls : List Lookup) (key : List UInt8) :
    (calls.foldl (after stof) self).params.lookup key =
      (self.params.lookup key).or (if key ∈ calls.map Lookup.key then some [] else none) := by
  induction calls generalizing self with
  | nil => simp
  | cons l calls ih =>
    rw [List.foldl_cons, ih, after_eq_index, lookup_index, Option.or_assoc]
    by_cases hkey : key = l.key
    · simp [hkey]
    · simp [hkey]

/-- What is found is found afterwards, and of the rest exactly the keys that were looked up. -/
theorem find_afterAll (self : HttpParam) (calls : List Lookup) (key : List UInt8) :
    (calls.foldl (after stof) self).find key =
      (self.find key || decide (key ∈ calls.map Lookup.key)) := by
  rw [find, lookup_afterAll, Option.isSome_or]
  split <;> simp_all [find]

theorem getStr_afterAll (self : HttpParam) (calls : List Lookup) (key : List UInt8) :
    ((calls.foldl (after stof) self).getStr key).1 = (self.getStr key).1 := by
  rw [getStr_fst, getStr_fst, lookup_afterAll]
  cases self.params.lookup key with
  | none =>
    rw [Option.none_or]
    split <;> rfl
  | some value => rfl

/-- The lookups leave every answer as it was exactly if the text has all the keys asked for. -/
theorem lookups_read_only_iff (text : List UInt8) (cut : UInt8) (calls : List Lookup) :
    (∀ key, (calls.foldl (after stof) (construct text cut)).find key =
          (construct text cut).find key ∧
        ((calls.foldl (after stof) (construct text cut)).getStr key).1 =
          ((construct text cut).getStr key).1) ↔
      ∀ l ∈ calls, (construct text cut).find l.key = true := by
  generalize construct text cut = self
  constructor
  · intro h l hl
    rw [← (h l.key).1, find_afterAll, decide_eq_true (List.mem_map_of_mem hl), Bool.or_true]
  · intro h key
    refine ⟨?_, getStr_afterAll stof self calls key⟩
    rw [find_afterAll]
    by_cases hkey : key ∈ calls.map Lookup.key
    · obtain ⟨l, hl, rfl⟩ := List.mem_map.mp hkey
      rw [h l hl, Bool.true_or]
    · rw [decide_eq_false hkey, Bool.or_false]

end

/-- `getStr` of a key that `user=jw` does not have. -/
theorem getStr_enters :
    (construct (ascii "user=jw") 38).find (ascii "pass") = false ∧
      ((construct (ascii "user=jw") 38).getStr (ascii "pass")).2.find (ascii "pass") = true := by
  decide +kernel

end HttpParam

end LuaServer
