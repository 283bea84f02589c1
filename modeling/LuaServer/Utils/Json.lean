import LuaServer.Common.Text
import LuaServer.Reasoning.Decimal
import LuaServer.Reasoning.MachineInt
import LuaServer.Reasoning.SortedMap

/-!
# Json — the tree of a JSON document and its text

A tree has values, arrays and objects; the map of an object holds its keys in order.  `write` puts a
tree into text, with or without layout.  A text is never escaped.

The `float` of the code and its `std::to_string` are parameters.
-/

open Reasoning

namespace LuaServer

/-- The `int` of the code. -/
abbrev CInt : Type := { i : Int // -2 ^ 31 ≤ i ∧ i < 2 ^ 31 }

/-- `JValue` by its type, `JArray` and `JSonObj`. -/
inductive JBaseObj (Float : Type)
  | int (iv : CInt)
  | float (fv : Float)
  | null
  | str (sv : List UInt8)
  | bool (bv : Bool)
  | array (items : List (JBaseObj Float))
  | obj (maps : List (List UInt8 × JBaseObj Float))

/-- `std::to_string` of an `int`. -/
def toStringInt (i : CInt) : List UInt8 :=
  if i.val < 0 then 45 :: numeral i.val.natAbs else numeral i.val.natAbs

namespace JBaseObj

variable {Float : Type}

/-- Induction over a tree: of the elements and members the statement may be assumed. -/
@[induction_eliminator]
theorem ind {motive : JBaseObj Float → Prop} (int : ∀ iv, motive (int iv))
    (float : ∀ fv, motive (float fv)) (null : motive null) (str : ∀ sv, motive (str sv))
    (bool : ∀ bv, motive (bool bv))
    (array : ∀ items, (∀ value ∈ items, motive value) → motive (array items))
    (obj : ∀ maps : List (List UInt8 × JBaseObj Float), (∀ e ∈ maps, motive e.2) →
      motive (obj maps)) (t : JBaseObj Float) : motive t := by
  refine @JBaseObj.rec Float motive (fun items => ∀ value ∈ items, motive value)
    (fun maps => ∀ e ∈ maps, motive e.2) (fun e => motive e.2) int float null str bool array obj
    ?_ ?_ ?_ ?_ ?_ t
  · simp
  · intro value items hvalue hitems
    exact List.forall_mem_cons.mpr ⟨hvalue, hitems⟩
  · simp
  · intro e maps he hmaps
    exact List.forall_mem_cons.mpr ⟨he, hmaps⟩
  · exact fun _ _ h => h

mutual

/-- Every subtree satisfies `p`. -/
def all (p : JBaseObj Float → Bool) : JBaseObj Float → Bool
  | int iv => p (int iv)
  | float fv => p (float fv)
  | null => p null
  | str sv => p (str sv)
  | bool bv => p (bool bv)
  | array items => p (array items) && allItems p items
  | obj maps => p (obj maps) && allMembers p maps

def allItems (p : JBaseObj Float → Bool) : List (JBaseObj Float) → Bool
  | [] => true
  | value :: items => all p value && allItems p items

def allMembers (p : JBaseObj Float → Bool) : List (List UInt8 × JBaseObj Float) → Bool
  | [] => true
  | (_, value) :: maps => all p value && allMembers p maps

end

theorem allItems_iff {p : JBaseObj Float → Bool} {items : List (JBaseObj Float)} :
    allItems p items = true ↔ ∀ value ∈ items, value.all p = true := by
  induction items with
  | nil => simp [allItems]
  | cons value items ih => simp [allItems, ih]

theorem allMembers_iff {p : JBaseObj Float → Bool} {maps : List (List UInt8 × JBaseObj Float)} :
    allMembers p maps = true ↔ ∀ e ∈ maps, e.2.all p = true := by
  induction maps with
  | nil => simp [allMembers]
  | cons e maps ih => simp [allMembers, ih]

theorem all_array_iff {p : JBaseObj Float → Bool} {items : List (JBaseObj Float)} :
    (array items).all p = true ↔
      p (array items) = true ∧ ∀ value ∈ items, value.all p = true := by
  rw [all, Bool.and_eq_true, allItems_iff]

theorem all_obj_iff {p : JBaseObj Float → Bool} {maps : List (List UInt8 × JBaseObj Float)} :
    (obj maps).all p = true ↔ p (obj maps) = true ∧ ∀ e ∈ maps, e.2.all p = true := by
  rw [all, Bool.and_eq_true, allMembers_iff]

theorem all_mono {p q : JBaseObj Float → Bool} (hpq : ∀ t, p t = true → q t = true)
    {t : JBaseObj Float} (h : t.all p = true) : t.all q = true := by
  induction t with
  | int | float | null | str | bool => exact hpq _ h
  | array items ih =>
    obtain ⟨hnode, hitems⟩ := all_array_iff.mp h
    exact all_array_iff.mpr ⟨hpq _ hnode, fun value hv => ih value hv (hitems value hv)⟩
  | obj maps ih =>
    obtain ⟨hnode, hmembers⟩ := all_obj_iff.mp h
    exact all_obj_iff.mpr ⟨hpq _ hnode, fun e he => ih e he (hmembers e he)⟩

/-! ## 1. The operations on arrays and objects -/

/-- `pushInt`, …, `pushNull`; `createArray` and `createObj` push an empty one. -/
def push (items : List (JBaseObj Float)) (value : JBaseObj Float) : JBaseObj Float :=
  array (items ++ [value])

/-- `setInt`, …, `setNull` of an array, and any operation on the element itself. -/
def setItem (items : List (JBaseObj Float)) (idx : Nat) (value : JBaseObj Float) :
    JBaseObj Float :=
  array (items.set idx value)

def removeItem (items : List (JBaseObj Float)) (idx : Nat) : JBaseObj Float :=
  array (items.eraseIdx idx)

/-- `setInt`, …, `setNull`, `createArray` and `createObj` of an object, and any operation on the
member itself. -/
def setMember (maps : List (List UInt8 × JBaseObj Float)) (key : List UInt8)
    (value : JBaseObj Float) : JBaseObj Float :=
  obj (assign key value maps)

def removeMember (maps : List (List UInt8 × JBaseObj Float)) (key : List UInt8) :
    JBaseObj Float :=
  obj (unassign key maps)

/-- The trees that the operations build; `setStr` takes a C string. -/
inductive Built : JBaseObj Float → Prop
  | int (iv : CInt) : Built (int iv)
  | float (fv : Float) : Built (float fv)
  | null : Built null
  | str (sv : List UInt8) (h : 0 ∉ sv) : Built (str sv)
  | bool (bv : Bool) : Built (bool bv)
  | array : Built (array [])
  | push {items value} (h : Built (array items)) (hv : Built value) : Built (push items value)
  | setItem {items value} (h : Built (array items)) (idx : Nat) (hv : Built value) :
      Built (setItem items idx value)
  | removeItem {items} (h : Built (array items)) (idx : Nat) : Built (removeItem items idx)
  | obj : Built (obj [])
  | setMember {maps value} (h : Built (obj maps)) (key : List UInt8) (hv : Built value) :
      Built (setMember maps key value)
  | removeMember {maps} (h : Built (obj maps)) (key : List UInt8) : Built (removeMember maps key)

/-- The keys of an object are in order. -/
def keysSorted : JBaseObj Float → Bool
  | obj maps => decide (SortedKeys maps)
  | _ => true

theorem Built.keysSorted {t : JBaseObj Float} (h : t.Built) : t.all keysSorted = true := by
  induction h with
  | int | float | null | str | bool | array => rfl
  | push h hv ih ihv =>
    refine all_array_iff.mpr ⟨rfl, fun x hx => ?_⟩
    rcases List.mem_append.mp hx with hx | hx
    · exact (all_array_iff.mp ih).2 x hx
    · exact List.mem_singleton.mp hx ▸ ihv
  | setItem h idx hv ih ihv =>
    refine all_array_iff.mpr ⟨rfl, fun x hx => ?_⟩
    rcases List.mem_or_eq_of_mem_set hx with hx | rfl
    · exact (all_array_iff.mp ih).2 x hx
    · exact ihv
  | removeItem h idx ih =>
    apply all_array_iff.mpr
    exact ⟨rfl, fun x hx => (all_array_iff.mp ih).2 x (List.mem_of_mem_eraseIdx hx)⟩
  | obj => rfl
  | setMember h key hv ih ihv =>
    obtain ⟨hsorted, hmembers⟩ := all_obj_iff.mp ih
    refine all_obj_iff.mpr ⟨?_, fun e he => ?_⟩
    · exact decide_eq_true (assign_sortedKeys (of_decide_eq_true hsorted) key _)
    · rcases mem_assign he with rfl | he
      · exact ihv
      · exact hmembers e he
  | removeMember h key ih =>
    obtain ⟨hsorted, hmembers⟩ := all_obj_iff.mp ih
    refine all_obj_iff.mpr ⟨?_, fun e he => hmembers e (List.mem_of_mem_filter he)⟩
    exact decide_eq_true (unassign_sortedKeys (of_decide_eq_true hsorted) key)

/-! ## 2. The text -/

def newline (layout : Bool) : List UInt8 := if layout then [10] else []

/-- `writeDepth`, which is called for the layout only. -/
def writeDepth (layout : Bool) (depth : Nat) : List UInt8 :=
  if layout then List.replicate depth 9 else []

/-- The comma behind all but the last. -/
def comma {α : Type} (rest : List α) : List UInt8 := if rest = [] then [] else [44]

def quoted (s : List UInt8) : List UInt8 := 34 :: s ++ [34]

section
-- `std::to_string` of a `float`
variable (toStringFloat : Float → List UInt8) (layout : Bool)

mutual

def writeAt : JBaseObj Float → Nat → List UInt8
  | int iv, _ => toStringInt iv
  | float fv, _ => toStringFloat fv
  | null, _ => ascii "null"
  | str sv, _ => quoted sv
  | bool bv, _ => if bv then ascii "true" else ascii "false"
  | array items, depth =>
    91 :: newline layout ++ writeItems items (depth + 1) ++ writeDepth layout depth ++ [93]
  | obj maps, depth =>
    123 :: newline layout ++ writeMembers maps (depth + 1) ++ writeDepth layout depth ++ [125]

/-- The loop over the elements of an array. -/
def writeItems : List (JBaseObj Float) → Nat → List UInt8
  | [], _ => []
  | value :: items, depth =>
    writeDepth layout depth ++ writeAt value depth ++ comma items ++ newline layout ++
      writeItems items depth

/-- The loop over the map of an object. -/
def writeMembers : List (List UInt8 × JBaseObj Float) → Nat → List UInt8
  | [], _ => []
  | (key, value) :: maps, depth =>
    writeDepth layout depth ++ quoted key ++ 58 :: writeAt value depth ++ comma maps ++
      newline layout ++ writeMembers maps depth

end

/-- `JsonReader::write`. -/
def write (t : JBaseObj Float) : List UInt8 := writeAt toStringFloat layout t 0

end

end JBaseObj

end LuaServer
