import LuaServer.Utils.Json

/-!
# JsonNode — the nodes of a JSON document

A child is a pointer, and `maps[key]` enters a null pointer for a key that is absent.  Every node has
its `type` in a field, apart from its class.  The setters reach a `JValue` by a `static_cast`, which
nothing checks; `view` is the tree that the nodes stand for.
-/

open Reasoning

namespace LuaServer

/-- `eJOSN_TYPE`. -/
inductive JsonType
  | int | float | null | string | bool | array | obj
deriving DecidableEq

/-- The union of a `JValue` with the member set last. -/
inductive JUnion (Float : Type)
  | unset
  | iv (v : CInt)
  | fv (v : Float)
  | bv (v : Bool)

structure JValue (Float : Type) where
  type : JsonType := .null
  data : JUnion Float := .unset
  sv : List UInt8 := []

/-- `JBaseObj *`: the null pointer, or the node it points to. -/
inductive JPtr (Float : Type)
  | nullptr
  | value (v : JValue Float)
  | array (type : JsonType) (items : List (JPtr Float))
  | obj (type : JsonType) (maps : List (List UInt8 × JPtr Float))

/-- What a setter sets, `setNull` apart. -/
inductive JScalar (Float : Type)
  | int (v : CInt)
  | float (v : Float)
  | str (v : List UInt8)
  | bool (v : Bool)

variable {Float : Type}

/-- Induction over the nodes: of the elements and members the statement may be assumed. -/
@[induction_eliminator]
theorem JPtr.ind {motive : JPtr Float → Prop} (nullptr : motive nullptr)
    (value : ∀ v, motive (value v))
    (array : ∀ type items, (∀ p ∈ items, motive p) → motive (array type items))
    (obj : ∀ type (maps : List (List UInt8 × JPtr Float)), (∀ e ∈ maps, motive e.2) →
      motive (obj type maps)) (p : JPtr Float) : motive p := by
  refine @JPtr.rec Float motive (fun items => ∀ p ∈ items, motive p)
    (fun maps => ∀ e ∈ maps, motive e.2) (fun e => motive e.2) nullptr value array obj ?_ ?_ ?_ ?_
    ?_ p
  · simp
  · intro p items hp hitems
    exact List.forall_mem_cons.mpr ⟨hp, hitems⟩
  · simp
  · intro e maps he hmaps
    exact List.forall_mem_cons.mpr ⟨he, hmaps⟩
  · exact fun _ _ h => h

/-! ## 1. Values -/

namespace JValue

def setInt (self : JValue Float) (v : CInt) : JValue Float :=
  { self with type := .int, data := .iv v }

def setFloat (self : JValue Float) (v : Float) : JValue Float :=
  { self with type := .float, data := .fv v }

def setStr (self : JValue Float) (v : List UInt8) : JValue Float :=
  { self with type := .string, sv := v }

def setBool (self : JValue Float) (v : Bool) : JValue Float :=
  { self with type := .bool, data := .bv v }

def setNull (self : JValue Float) : JValue Float := { self with type := .null }

/-- A member of the union that is not the one set last has no value. -/
def write (toStringFloat : Float → List UInt8) (self : JValue Float) : Option (List UInt8) :=
  match self.type, self.data with
  | .int, .iv v => some (toStringInt v)
  | .float, .fv v => some (toStringFloat v)
  | .bool, .bv v => some (if v then ascii "true" else ascii "false")
  | .null, _ => some (ascii "null")
  | .string, _ => some (JBaseObj.quoted self.sv)
  | .array, _ | .obj, _ => some []
  | .int, _ | .float, _ | .bool, _ => none

end JValue

/-- The setter of a `JValue` for this value. -/
def JScalar.set : JScalar Float → JValue Float → JValue Float
  | int v, self => self.setInt v
  | float v, self => self.setFloat v
  | str v, self => self.setStr v
  | bool v, self => self.setBool v

namespace JPtr

/-- `new JArray`. -/
def newArray : JPtr Float := array .array []

/-- `new JSonObj`. -/
def newObj : JPtr Float := obj .obj []

/-- The `type` of the node, if there is one. -/
def type : JPtr Float → Option JsonType
  | nullptr => none
  | value v => some v.type
  | array type _ => some type
  | obj type _ => some type

/-- `type == eJ_ARRAY || type == eJ_OBJ`. -/
def isContainer (p : JPtr Float) : Bool := p.type = some .array || p.type = some .obj

end JPtr

/-! ## 2. Objects -/

namespace JSonObj

variable (maps : List (List UInt8 × JPtr Float)) (key : List UInt8)

/-- `maps[key]`: an absent key is entered with a null pointer. -/
def index : JPtr Float × List (List UInt8 × JPtr Float) :=
  match maps.lookup key with
  | some p => (p, maps)
  | none => (.nullptr, assign key .nullptr maps)

/-- `static_cast<JValue *>(maps[key])->…`; none is a cast of something else. -/
def castSet (set : JValue Float → JValue Float) : Option (List (List UInt8 × JPtr Float)) :=
  match index maps key with
  | (.value v, maps) => some (assign key (.value (set v)) maps)
  | _ => none

/-- `if (!maps[key]) maps[key] = new JValue`. -/
def ensure : List (List UInt8 × JPtr Float) :=
  match index maps key with
  | (.nullptr, maps) => assign key (.value {}) maps
  | (_, maps) => maps

def setInt (v : CInt) : Option (List (List UInt8 × JPtr Float)) :=
  castSet (ensure maps key) key (·.setInt v)

def setFloat (v : Float) : Option (List (List UInt8 × JPtr Float)) :=
  castSet (ensure maps key) key (·.setFloat v)

def setStr (v : List UInt8) : Option (List (List UInt8 × JPtr Float)) :=
  castSet (ensure maps key) key (·.setStr v)

def setBool (v : Bool) : Option (List (List UInt8 × JPtr Float)) :=
  castSet (ensure maps key) key (·.setBool v)

/-- The one setter that replaces an array or an object. -/
def setNull : Option (List (List UInt8 × JPtr Float)) :=
  match index maps key with
  | (.nullptr, maps) => castSet (assign key (.value {}) maps) key (·.setNull)
  | (p, maps) =>
    if p.isContainer then castSet (assign key (.value {}) maps) key (·.setNull)
    else castSet maps key (·.setNull)

/-- `find`, and `erase` of what is found. -/
def remove : List (List UInt8 × JPtr Float) := unassign key maps

def createArray : List (List UInt8 × JPtr Float) := assign key .newArray maps

def createObj : List (List UInt8 × JPtr Float) := assign key .newObj maps

/-- The setter of an object for this value. -/
def set : JScalar Float → Option (List (List UInt8 × JPtr Float))
  | .int v => setInt maps key v
  | .float v => setFloat maps key v
  | .str v => setStr maps key v
  | .bool v => setBool maps key v

end JSonObj

/-! ## 3. Arrays -/

namespace JArray

variable (items : List (JPtr Float)) (idx : Nat)

def pushInt (v : CInt) : List (JPtr Float) := items ++ [.value (JValue.setInt {} v)]

def pushFloat (v : Float) : List (JPtr Float) := items ++ [.value (JValue.setFloat {} v)]

def pushStr (v : List UInt8) : List (JPtr Float) := items ++ [.value (JValue.setStr {} v)]

def pushBool (v : Bool) : List (JPtr Float) := items ++ [.value (JValue.setBool {} v)]

def pushNull : List (JPtr Float) := items ++ [.value (JValue.setNull {})]

/-- `static_cast<JValue *>(items[idx])->…`. -/
def castSet (set : JValue Float → JValue Float) : Option (List (JPtr Float)) :=
  match items[idx]? with
  | some (.value v) => some (items.set idx (.value (set v)))
  | _ => none

def setInt (v : CInt) : Option (List (JPtr Float)) := castSet items idx (·.setInt v)

def setFloat (v : Float) : Option (List (JPtr Float)) := castSet items idx (·.setFloat v)

def setStr (v : List UInt8) : Option (List (JPtr Float)) := castSet items idx (·.setStr v)

def setBool (v : Bool) : Option (List (JPtr Float)) := castSet items idx (·.setBool v)

def setNull : Option (List (JPtr Float)) :=
  match items[idx]? with
  | none => none
  | some p =>
    if p.isContainer then castSet (items.set idx (.value {})) idx (·.setNull)
    else castSet items idx (·.setNull)

/-- `items.begin() + idx` may be the end, not behind it. -/
def remove : Option (List (JPtr Float)) :=
  if idx < items.length then some (items.eraseIdx idx)
  else if idx = items.length then some items
  else none

def createArray : List (JPtr Float) := items ++ [.newArray]

def createObj : List (JPtr Float) := items ++ [.newObj]

/-- The `push` for this value. -/
def push : JScalar Float → List (JPtr Float)
  | .int v => pushInt items v
  | .float v => pushFloat items v
  | .str v => pushStr items v
  | .bool v => pushBool items v

/-- The setter of an array for this value. -/
def set : JScalar Float → Option (List (JPtr Float))
  | .int v => setInt items idx v
  | .float v => setFloat items idx v
  | .str v => setStr items idx v
  | .bool v => setBool items idx v

end JArray

/-! ## 4. The text -/

namespace JPtr

section
-- `std::to_string` of a `float`
variable (toStringFloat : Float → List UInt8) (layout : Bool)

mutual

/-- None is a step through a null pointer, or a member of the union that is not set. -/
def writeAt : JPtr Float → Nat → Option (List UInt8)
  | nullptr, _ => none
  | value v, _ => v.write toStringFloat
  | array _ items, depth => (writeItems items (depth + 1)).map fun text =>
    91 :: JBaseObj.newline layout ++ text ++ JBaseObj.writeDepth layout depth ++ [93]
  | obj _ maps, depth => (writeMembers maps (depth + 1)).map fun text =>
    123 :: JBaseObj.newline layout ++ text ++ JBaseObj.writeDepth layout depth ++ [125]

def writeItems : List (JPtr Float) → Nat → Option (List UInt8)
  | [], _ => some []
  | p :: items, depth =>
    (writeAt p depth).bind fun text => (writeItems items depth).map fun rest =>
      JBaseObj.writeDepth layout depth ++ text ++ JBaseObj.comma items ++ JBaseObj.newline layout ++
        rest

def writeMembers : List (List UInt8 × JPtr Float) → Nat → Option (List UInt8)
  | [], _ => some []
  | (key, p) :: maps, depth =>
    (writeAt p depth).bind fun text => (writeMembers maps depth).map fun rest =>
      JBaseObj.writeDepth layout depth ++ JBaseObj.quoted key ++ 58 :: text ++
        JBaseObj.comma maps ++ JBaseObj.newline layout ++ rest

end

/-- `JsonReader::write`. -/
def write (p : JPtr Float) : Option (List UInt8) := writeAt toStringFloat layout p 0

end

end JPtr

/-! ## 5. The tree -/

def JScalar.tree : JScalar Float → JBaseObj Float
  | int v => .int v
  | float v => .float v
  | str v => .str v
  | bool v => .bool v

/-- The tag of a value, and the member of the union that belongs to it. -/
def JValue.agrees (v : JValue Float) : Bool :=
  match v.type, v.data with
  | .int, .iv _ | .float, .fv _ | .bool, .bv _ | .null, _ | .string, _ => true
  | _, _ => false

def JValue.tree (v : JValue Float) : JBaseObj Float :=
  match v.type, v.data with
  | .int, .iv i => .int i
  | .float, .fv x => .float x
  | .bool, .bv b => .bool b
  | .string, _ => .str v.sv
  | _, _ => .null

namespace JPtr

mutual

/-- What the nodes stand for; a key with a null pointer counts as absent. -/
def view : JPtr Float → JBaseObj Float
  | nullptr => .null
  | value v => v.tree
  | array _ items => .array (viewItems items)
  | obj _ maps => .obj (viewMembers maps)

def viewItems : List (JPtr Float) → List (JBaseObj Float)
  | [] => []
  | p :: items => view p :: viewItems items

def viewMembers : List (List UInt8 × JPtr Float) → List (List UInt8 × JBaseObj Float)
  | [] => []
  | (_, nullptr) :: maps => viewMembers maps
  | (key, p) :: maps => (key, view p) :: viewMembers maps

end

/-- In every node the tag agrees with the class, `eJ_ARRAY` in a `JArray`, `eJ_OBJ` in a `JSonObj` and
another one in a `JValue`; only a member of an object may be a null pointer. -/
inductive Consistent : JPtr Float → Prop
  | value {v : JValue Float} (h : v.agrees = true) : Consistent (value v)
  | array {items : List (JPtr Float)} (h : ∀ p ∈ items, Consistent p) :
      Consistent (array .array items)
  | obj {maps : List (List UInt8 × JPtr Float)} (hsorted : SortedKeys maps)
      (h : ∀ e ∈ maps, e.2 ≠ nullptr → Consistent e.2) : Consistent (obj .obj maps)

variable {p : JPtr Float} {items : List (JPtr Float)} {maps : List (List UInt8 × JPtr Float)}
  {key : List UInt8}

theorem viewItems_eq (items : List (JPtr Float)) : viewItems items = items.map view := by
  induction items with
  | nil => rfl
  | cons p items ih => rw [viewItems, ih, List.map_cons]

theorem viewMembers_cons_nullptr (key : List UInt8) (maps : List (List UInt8 × JPtr Float)) :
    viewMembers ((key, nullptr) :: maps) = viewMembers maps := by
  rw [viewMembers]

theorem viewMembers_cons (hp : p ≠ nullptr) (key : List UInt8)
    (maps : List (List UInt8 × JPtr Float)) :
    viewMembers ((key, p) :: maps) = (key, p.view) :: viewMembers maps := by
  cases p with
  | nullptr => exact absurd rfl hp
  | _ =>
    rw [viewMembers]
    exact hp

theorem viewMembers_sortedKeys (h : SortedKeys maps) : SortedKeys (viewMembers maps) := by
  refine List.Pairwise.sublist ?_ h
  clear h
  induction maps with
  | nil => exact List.Sublist.refl _
  | cons e maps ih =>
    obtain ⟨key, p⟩ := e
    by_cases hp : p = nullptr
    · subst hp
      rw [viewMembers_cons_nullptr]
      exact ih.cons key
    · rw [viewMembers_cons hp]
      exact ih.cons_cons key

theorem lookup_viewMembers (h : SortedKeys maps) (key : List UInt8) :
    (viewMembers maps).lookup key =
      (maps.lookup key).bind fun p => if p.type = none then none else some p.view := by
  induction maps with
  | nil => rfl
  | cons e maps ih =>
    obtain ⟨key', p⟩ := e
    obtain ⟨hlt, hsorted⟩ := sortedKeys_cons_iff.mp h
    have hrest := ih hsorted
    by_cases hp : p = nullptr
    · subst hp
      rw [viewMembers_cons_nullptr, hrest]
      by_cases hkey : key = key'
      · -- behind the null pointer the key does not come again
        rw [hkey, lookup_of_lt hlt, List.lookup_cons_self]
        rfl
      · rw [List.lookup_cons, beq_false_of_ne hkey]
    · have htype : p.type ≠ none := by
        cases p with
        | nullptr => exact absurd rfl hp
        | _ => exact Option.some_ne_none _
      rw [viewMembers_cons hp]
      by_cases hkey : key = key'
      · rw [hkey, List.lookup_cons_self, List.lookup_cons_self, Option.bind_some, if_neg htype]
      · rw [List.lookup_cons, List.lookup_cons, beq_false_of_ne hkey]
        exact hrest

end JPtr
end LuaServer
