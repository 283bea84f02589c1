import LuaServer.Utils.JsonNode
import LuaServer.Reasoning.Transition
import Mathlib.Data.List.InsertIdx

/-!
# JsonUpdate — the operations on the objects and arrays of a document

An operation goes to one object or array of the document, which its path names.  All but four setters
replace whatever stands in their place; `setInt`, `setFloat`, `setStr` and `setBool` write into it as
into a `JValue`.
-/

open Reasoning

namespace LuaServer

/-- What is called on an object. -/
inductive ObjOp (Float : Type)
  | set (key : List UInt8) (x : JScalar Float)
  | setNull (key : List UInt8)
  | createArray (key : List UInt8)
  | createObj (key : List UInt8)
  | remove (key : List UInt8)

/-- What is called on an array. -/
inductive ArrayOp (Float : Type)
  | push (x : JScalar Float)
  | pushNull
  | set (idx : Nat) (x : JScalar Float)
  | setNull (idx : Nat)
  | createArray
  | createObj
  | remove (idx : Nat)

inductive JsonOp (Float : Type)
  | onObj (op : ObjOp Float)
  | onArray (op : ArrayOp Float)

/-- `getJsonObj` of a key or an index that is there. -/
inductive JsonStep
  | key (key : List UInt8)
  | idx (idx : Nat)

structure JsonUpdate (Float : Type) where
  path : List JsonStep
  op : JsonOp Float

variable {Float : Type}

/-! ## 1. The operations on the nodes -/

def JSonObj.perform (maps : List (List UInt8 × JPtr Float)) :
    ObjOp Float → Option (List (List UInt8 × JPtr Float))
  | .set key x => set maps key x
  | .setNull key => setNull maps key
  | .createArray key => some (createArray maps key)
  | .createObj key => some (createObj maps key)
  | .remove key => some (remove maps key)

def JArray.perform (items : List (JPtr Float)) : ArrayOp Float → Option (List (JPtr Float))
  | .push x => some (push items x)
  | .pushNull => some (pushNull items)
  | .set idx x => set items idx x
  | .setNull idx => setNull items idx
  | .createArray => some (createArray items)
  | .createObj => some (createObj items)
  | .remove idx => remove items idx

namespace JPtr

def perform : JPtr Float → JsonOp Float → Option (JPtr Float)
  | obj type maps, .onObj op => (JSonObj.perform maps op).map (obj type)
  | array type items, .onArray op => (JArray.perform items op).map (array type)
  | _, _ => none

/-- The node at the end of the path. -/
def get : List JsonStep → JPtr Float → Option (JPtr Float)
  | [], p => some p
  | .key key :: path, obj _ maps => (maps.lookup key).bind (get path)
  | .idx idx :: path, array _ items => items[idx]?.bind (get path)
  | _, _ => none

/-- The document after an operation at the end of the path. -/
def modify (f : JPtr Float → Option (JPtr Float)) : List JsonStep → JPtr Float → Option (JPtr Float)
  | [], p => f p
  | .key key :: path, obj type maps =>
    (maps.lookup key).bind fun p => (modify f path p).map fun p' => obj type (assign key p' maps)
  | .idx idx :: path, array type items =>
    items[idx]?.bind fun p => (modify f path p).map fun p' => array type (items.set idx p')
  | _, _ => none

def update (root : JPtr Float) (u : JsonUpdate Float) : Option (JPtr Float) :=
  modify (·.perform u.op) u.path root

/-- The operation is one of this node's class, and its index is in range. -/
def accepts : JPtr Float → JsonOp Float → Bool
  | obj _ _, .onObj _ => true
  | array _ items, .onArray (.set idx _) => decide (idx < items.length)
  | array _ items, .onArray (.setNull idx) => decide (idx < items.length)
  | array _ items, .onArray (.remove idx) => decide (idx < items.length)
  | array _ _, .onArray _ => true
  | _, _ => false

/-- No array or object stands where a value other than null is set. -/
def settable : JPtr Float → JsonOp Float → Bool
  | obj _ maps, .onObj (.set key _) => (maps.lookup key).all fun p => !p.isContainer
  | array _ items, .onArray (.set idx _) => items[idx]?.all fun p => !p.isContainer
  | _, _ => true

end JPtr

/-! ## 2. The operations on the tree -/

namespace JBaseObj

def performObj (maps : List (List UInt8 × JBaseObj Float)) : ObjOp Float → JBaseObj Float
  | .set key x => setMember maps key x.tree
  | .setNull key => setMember maps key null
  | .createArray key => setMember maps key (array [])
  | .createObj key => setMember maps key (obj [])
  | .remove key => removeMember maps key

def performArray (items : List (JBaseObj Float)) : ArrayOp Float → JBaseObj Float
  | .push x => push items x.tree
  | .pushNull => push items null
  | .set idx x => setItem items idx x.tree
  | .setNull idx => setItem items idx null
  | .createArray => push items (array [])
  | .createObj => push items (obj [])
  | .remove idx => removeItem items idx

def perform : JBaseObj Float → JsonOp Float → JBaseObj Float
  | obj maps, .onObj op => performObj maps op
  | array items, .onArray op => performArray items op
  | t, _ => t

def modify (f : JBaseObj Float → JBaseObj Float) : List JsonStep → JBaseObj Float → JBaseObj Float
  | [], t => f t
  | .key key :: path, obj maps =>
    (maps.lookup key).elim (obj maps) fun t => setMember maps key (modify f path t)
  | .idx idx :: path, array items =>
    items[idx]?.elim (array items) fun t => setItem items idx (modify f path t)
  | _, t => t

/-- What the operation is for: the member or element is the value set, all else is as before. -/
def update (t : JBaseObj Float) (u : JsonUpdate Float) : JBaseObj Float :=
  modify (·.perform u.op) u.path t

end JBaseObj

/-! ## 3. Values -/

theorem JScalar.agrees_set (x : JScalar Float) (v : JValue Float) : (x.set v).agrees = true := by
  cases x <;> rfl

theorem JScalar.tree_set (x : JScalar Float) (v : JValue Float) : (x.set v).tree = x.tree := by
  cases x <;> rfl

namespace JPtr

variable {p q q' : JPtr Float} {items items' : List (JPtr Float)}
  {maps maps' : List (List UInt8 × JPtr Float)} {key : List UInt8} {idx : Nat}

theorem Consistent.ne_nullptr (h : p.Consistent) : p ≠ nullptr := by
  rintro rfl
  cases h

theorem consistent_set (x : JScalar Float) (v : JValue Float) : (value (x.set v)).Consistent :=
  .value (x.agrees_set v)

theorem consistent_setNull (v : JValue Float) : (value v.setNull).Consistent := .value rfl

theorem consistent_newArray : (newArray : JPtr Float).Consistent :=
  .array fun _ h => absurd h List.not_mem_nil

theorem consistent_newObj : (newObj : JPtr Float).Consistent :=
  .obj List.Pairwise.nil fun _ h => absurd h List.not_mem_nil

theorem type_of_agrees {v : JValue Float} (h : v.agrees = true) :
    v.type ≠ .array ∧ v.type ≠ .obj := by
  constructor <;> intro htype <;> simp [JValue.agrees, htype] at h

/-- In a consistent document the tag tells a `JValue` from the rest. -/
theorem isContainer_eq_false_iff (h : p.Consistent) :
    p.isContainer = false ↔ ∃ v, p = value v := by
  cases h with
  | @value v h =>
    obtain ⟨harray, hobj⟩ := type_of_agrees h
    exact iff_of_true (by simp [isContainer, type, harray, hobj]) ⟨v, rfl⟩
  | array h => exact iff_of_false (by simp [isContainer, type]) (by rintro ⟨v, hv⟩; cases hv)
  | obj hsorted h => exact iff_of_false (by simp [isContainer, type]) (by rintro ⟨v, hv⟩; cases hv)

/-! ## 4. Objects -/

theorem consistent_assign (h : (obj .obj maps).Consistent) (hp : p.Consistent)
    (key : List UInt8) : (obj .obj (assign key p maps)).Consistent := by
  cases h with
  | obj hsorted h =>
    refine .obj (assign_sortedKeys hsorted key p) fun e he hne => ?_
    rcases mem_assign he with rfl | he
    · exact hp
    · exact h e he hne

theorem type_ne_none (h : p ≠ nullptr) : p.type ≠ none := by
  cases p with
  | nullptr => exact absurd rfl h
  | _ => exact Option.some_ne_none _

theorem viewMembers_assign (hsorted : SortedKeys maps) (hp : p ≠ nullptr) (key : List UInt8) :
    viewMembers (assign key p maps) = assign key p.view (viewMembers maps) := by
  have hassign := assign_sortedKeys hsorted key p
  refine ext_lookup (viewMembers_sortedKeys hassign)
    (assign_sortedKeys (viewMembers_sortedKeys hsorted) key p.view) fun key' => ?_
  rw [lookup_viewMembers hassign]
  by_cases hkey : key' = key
  · rw [hkey, lookup_assign_self, lookup_assign_self, Option.bind_some, if_neg (type_ne_none hp)]
  · rw [lookup_assign_of_ne hkey, lookup_assign_of_ne hkey, lookup_viewMembers hsorted]

theorem viewMembers_unassign (hsorted : SortedKeys maps) (key : List UInt8) :
    viewMembers (unassign key maps) = unassign key (viewMembers maps) := by
  have hunassign := unassign_sortedKeys hsorted key
  refine ext_lookup (viewMembers_sortedKeys hunassign)
    (unassign_sortedKeys (viewMembers_sortedKeys hsorted) key) fun key' => ?_
  rw [lookup_viewMembers hunassign]
  by_cases hkey : key' = key
  · rw [hkey, lookup_unassign_self, lookup_unassign_self, Option.bind_none]
  · rw [lookup_unassign_of_ne hkey, lookup_unassign_of_ne hkey, lookup_viewMembers hsorted]

theorem castSet_assign (v : JValue Float) (set : JValue Float → JValue Float) :
    JSonObj.castSet (assign key (value v) maps) key set =
      some (assign key (value (set v)) maps) := by
  rw [JSonObj.castSet, JSonObj.index, lookup_assign_self]
  exact congrArg some (assign_assign key _ _ maps)

/-- The value a setter of an object writes into. -/
def target (maps : List (List UInt8 × JPtr Float)) (key : List UInt8) : Option (JValue Float) :=
  match maps.lookup key with
  | none | some nullptr => some {}
  | some (value v) => some v
  | _ => none

theorem castSet_ensure (set : JValue Float → JValue Float) :
    JSonObj.castSet (JSonObj.ensure maps key) key set =
      (target maps key).map fun v => assign key (value (set v)) maps := by
  unfold JSonObj.ensure JSonObj.index target
  cases hlookup : maps.lookup key with
  | none =>
    show JSonObj.castSet (assign key (value {}) (assign key nullptr maps)) key set = _
    rw [assign_assign, castSet_assign]
    rfl
  | some p =>
    cases p with
    | nullptr => exact castSet_assign {} set
    | value v => simp [JSonObj.castSet, JSonObj.index, hlookup]
    | array type items => simp [JSonObj.castSet, JSonObj.index, hlookup]
    | obj type maps => simp [JSonObj.castSet, JSonObj.index, hlookup]

theorem set_eq (x : JScalar Float) :
    JSonObj.set maps key x = (target maps key).map fun v => assign key (value (x.set v)) maps := by
  cases x <;> exact castSet_ensure _

theorem setNull_eq (h : (obj .obj maps).Consistent) :
    ∃ v, JSonObj.setNull maps key = some (assign key (value (JValue.setNull v)) maps) := by
  cases h with
  | obj hsorted h =>
    unfold JSonObj.setNull JSonObj.index
    cases hlookup : maps.lookup key with
    | none =>
      refine ⟨{}, ?_⟩
      show JSonObj.castSet (assign key (value {}) (assign key nullptr maps)) key _ = _
      rw [assign_assign, castSet_assign]
    | some p =>
      by_cases hp : p = nullptr
      · subst hp
        exact ⟨{}, castSet_assign {} _⟩
      · have hcons := h _ (mem_of_lookup hlookup) hp
        cases hcontainer : p.isContainer with
        | false =>
          obtain ⟨v, rfl⟩ := (isContainer_eq_false_iff hcons).mp hcontainer
          exact ⟨v, by simp [JSonObj.castSet, JSonObj.index, hlookup, hcontainer]⟩
        | true =>
          refine ⟨{}, ?_⟩
          cases p with
          | nullptr => exact absurd rfl hp
          | _ => simp [hcontainer, castSet_assign]

theorem obj_assign (h : (obj .obj maps).Consistent) (hp : p.Consistent) (key : List UInt8) :
    (obj .obj (assign key p maps)).Consistent ∧
      (obj .obj (assign key p maps)).view = .setMember (viewMembers maps) key p.view := by
  refine ⟨consistent_assign h hp key, ?_⟩
  cases h with
  | obj hsorted h => exact congrArg JBaseObj.obj (viewMembers_assign hsorted hp.ne_nullptr key)

theorem obj_remove (h : (obj .obj maps).Consistent) (key : List UInt8) :
    (obj .obj (unassign key maps)).Consistent ∧
      (obj .obj (unassign key maps)).view = .removeMember (viewMembers maps) key := by
  cases h with
  | obj hsorted h =>
    refine ⟨.obj (unassign_sortedKeys hsorted key) fun e he => h e (List.mem_of_mem_filter he), ?_⟩
    exact congrArg JBaseObj.obj (viewMembers_unassign hsorted key)

theorem obj_perform (h : (obj .obj maps).Consistent) {op : ObjOp Float}
    (hop : JSonObj.perform maps op = some maps') :
    (obj .obj maps').Consistent ∧
      (obj .obj maps').view = JBaseObj.performObj (viewMembers maps) op := by
  cases op with
  | set key x =>
    rw [JSonObj.perform, set_eq, Option.map_eq_some_iff] at hop
    obtain ⟨v, -, rfl⟩ := hop
    rw [JBaseObj.performObj, ← x.tree_set v]
    exact obj_assign h (consistent_set x v) key
  | setNull key =>
    obtain ⟨v, hv⟩ := @setNull_eq _ _ key h
    obtain rfl := Option.some.inj (hv.symm.trans hop)
    exact obj_assign h (consistent_setNull v) key
  | createArray key =>
    obtain rfl := Option.some.inj hop
    exact obj_assign h consistent_newArray key
  | createObj key =>
    obtain rfl := Option.some.inj hop
    exact obj_assign h consistent_newObj key
  | remove key =>
    obtain rfl := Option.some.inj hop
    exact obj_remove h key

/-- Only over an array or an object the operation does not come to its end. -/
theorem obj_perform_isSome_iff (h : (obj .obj maps).Consistent) (op : ObjOp Float) :
    (JSonObj.perform maps op).isSome = true ↔ (obj .obj maps).settable (.onObj op) = true := by
  cases op with
  | set key x =>
    rw [JSonObj.perform, set_eq, Option.isSome_map, settable, target]
    cases h with
    | obj hsorted h =>
      cases hlookup : maps.lookup key with
      | none => exact iff_of_true rfl rfl
      | some p =>
        by_cases hp : p = nullptr
        · subst hp
          exact iff_of_true rfl rfl
        · have hcontainer := isContainer_eq_false_iff (h _ (mem_of_lookup hlookup) hp)
          rw [Option.all_some, Bool.not_eq_true', hcontainer]
          cases p with
          | nullptr => exact absurd rfl hp
          | value v => exact iff_of_true rfl ⟨v, rfl⟩
          | array type items => simp
          | obj type maps => simp
  | setNull key =>
    obtain ⟨v, hv⟩ := @setNull_eq _ _ key h
    exact iff_of_true (Option.isSome_of_eq_some hv) rfl
  | createArray | createObj | remove => exact iff_of_true rfl rfl

/-! ## 5. Arrays -/

theorem array_push (h : (array .array items).Consistent) (hp : p.Consistent) :
    (array .array (items ++ [p])).Consistent ∧
      (array .array (items ++ [p])).view = .push (viewItems items) p.view := by
  cases h with
  | array h =>
    constructor
    · refine .array fun q hq => ?_
      rcases List.mem_append.mp hq with hq | hq
      · exact h q hq
      · exact List.mem_singleton.mp hq ▸ hp
    · rw [view, viewItems_eq, viewItems_eq, List.map_append]
      rfl

theorem array_set (h : (array .array items).Consistent) (hp : p.Consistent) (idx : Nat) :
    (array .array (items.set idx p)).Consistent ∧
      (array .array (items.set idx p)).view = .setItem (viewItems items) idx p.view := by
  cases h with
  | array h =>
    constructor
    · refine .array fun q hq => ?_
      rcases List.mem_or_eq_of_mem_set hq with hq | rfl
      · exact h q hq
      · exact hp
    · rw [view, viewItems_eq, viewItems_eq, List.map_set]
      rfl

theorem array_remove (h : (array .array items).Consistent) (idx : Nat) :
    (array .array (items.eraseIdx idx)).Consistent ∧
      (array .array (items.eraseIdx idx)).view = .removeItem (viewItems items) idx := by
  cases h with
  | array h =>
    refine ⟨.array fun q hq => h q (List.mem_of_mem_eraseIdx hq), ?_⟩
    rw [view, viewItems_eq, viewItems_eq, ← List.eraseIdx_map]
    rfl

theorem castSet_eq_some {set : JValue Float → JValue Float}
    (h : JArray.castSet items idx set = some items') :
    ∃ v, items' = items.set idx (value (set v)) := by
  rw [JArray.castSet] at h
  split at h
  · next v hv => exact ⟨v, (Option.some.inj h).symm⟩
  · cases h

theorem set_eq_castSet (x : JScalar Float) :
    JArray.set items idx x = JArray.castSet items idx x.set := by
  cases x <;> rfl

theorem push_eq (x : JScalar Float) : JArray.push items x = items ++ [value (x.set {})] := by
  cases x <;> rfl

theorem castSet_isSome_iff (h : ∀ p ∈ items, p.Consistent) (hidx : idx < items.length)
    (set : JValue Float → JValue Float) :
    (JArray.castSet items idx set).isSome = true ↔ items[idx].isContainer = false := by
  rw [isContainer_eq_false_iff (h _ (List.getElem_mem hidx)), JArray.castSet,
    List.getElem?_eq_getElem hidx]
  cases items[idx] with
  | value v => exact iff_of_true rfl ⟨v, rfl⟩
  | _ => simp

theorem array_setNull (h : ∀ p ∈ items, p.Consistent) (hidx : idx < items.length) :
    ∃ v, JArray.setNull items idx = some (items.set idx (value (JValue.setNull v))) := by
  rw [JArray.setNull, List.getElem?_eq_getElem hidx]
  cases hcontainer : items[idx].isContainer with
  | false =>
    obtain ⟨v, hv⟩ := (isContainer_eq_false_iff (h _ (List.getElem_mem hidx))).mp hcontainer
    refine ⟨v, ?_⟩
    rw [hv] at hcontainer ⊢
    simp [hcontainer, JArray.castSet, hidx, hv]
  | true => exact ⟨{}, by simp [hcontainer, JArray.castSet, hidx]⟩

theorem array_perform (h : (array .array items).Consistent) {op : ArrayOp Float}
    (haccepts : (array .array items).accepts (.onArray op) = true)
    (hop : JArray.perform items op = some items') :
    (array .array items').Consistent ∧
      (array .array items').view = JBaseObj.performArray (viewItems items) op := by
  cases op with
  | push x =>
    obtain rfl := Option.some.inj hop
    rw [push_eq, JBaseObj.performArray, ← x.tree_set {}]
    exact array_push h (consistent_set x {})
  | pushNull =>
    obtain rfl := Option.some.inj hop
    exact array_push h (consistent_setNull {})
  | set idx x =>
    rw [JArray.perform, set_eq_castSet] at hop
    obtain ⟨v, rfl⟩ := castSet_eq_some hop
    rw [JBaseObj.performArray, ← x.tree_set v]
    exact array_set h (consistent_set x v) idx
  | setNull idx =>
    cases h with
    | array hitems =>
      obtain ⟨v, hv⟩ := array_setNull hitems (of_decide_eq_true haccepts)
      obtain rfl := Option.some.inj (hv.symm.trans hop)
      exact array_set (.array hitems) (consistent_setNull v) idx
  | createArray =>
    obtain rfl := Option.some.inj hop
    exact array_push h consistent_newArray
  | createObj =>
    obtain rfl := Option.some.inj hop
    exact array_push h consistent_newObj
  | remove idx =>
    rw [JArray.perform, JArray.remove, if_pos (of_decide_eq_true haccepts)] at hop
    obtain rfl := Option.some.inj hop
    exact array_remove h idx

theorem array_perform_isSome_iff (h : (array .array items).Consistent) {op : ArrayOp Float}
    (haccepts : (array .array items).accepts (.onArray op) = true) :
    (JArray.perform items op).isSome = true ↔
      (array .array items).settable (.onArray op) = true := by
  cases h with
  | array hitems =>
    cases op with
    | push | pushNull | createArray | createObj => exact iff_of_true rfl rfl
    | set idx x =>
      have hidx : idx < items.length := of_decide_eq_true haccepts
      rw [JArray.perform, set_eq_castSet, castSet_isSome_iff hitems hidx, settable,
        List.getElem?_eq_getElem hidx, Option.all_some, Bool.not_eq_true']
    | setNull idx =>
      obtain ⟨v, hv⟩ := array_setNull hitems (of_decide_eq_true haccepts)
      exact iff_of_true (Option.isSome_of_eq_some hv) rfl
    | remove idx =>
      refine iff_of_true ?_ rfl
      rw [JArray.perform, JArray.remove, if_pos (of_decide_eq_true haccepts)]
      rfl

/-! ## 6. Any node -/

theorem perform_spec {op : JsonOp Float} (h : q.Consistent) (haccepts : q.accepts op = true)
    (hop : q.perform op = some q') : q'.Consistent ∧ q'.view = q.view.perform op := by
  cases h with
  | value hv => cases op <;> cases haccepts
  | @array items hitems =>
    cases op with
    | onObj op => cases haccepts
    | onArray op =>
      obtain ⟨items', hitems', rfl⟩ := Option.map_eq_some_iff.mp hop
      exact array_perform (.array hitems) haccepts hitems'
  | @obj maps hsorted hmaps =>
    cases op with
    | onArray op => cases op <;> cases haccepts
    | onObj op =>
      obtain ⟨maps', hmaps', rfl⟩ := Option.map_eq_some_iff.mp hop
      exact obj_perform (.obj hsorted hmaps) hmaps'

theorem perform_isSome_iff {op : JsonOp Float} (h : q.Consistent) (haccepts : q.accepts op = true) :
    (q.perform op).isSome = true ↔ q.settable op = true := by
  cases h with
  | value hv => cases op <;> cases haccepts
  | @array items hitems =>
    cases op with
    | onObj op => cases haccepts
    | onArray op =>
      rw [perform, Option.isSome_map]
      exact array_perform_isSome_iff (.array hitems) haccepts
  | @obj maps hsorted hmaps =>
    cases op with
    | onArray op => cases op <;> cases haccepts
    | onObj op =>
      rw [perform, Option.isSome_map]
      exact obj_perform_isSome_iff (.obj hsorted hmaps) op

/-! ## 7. The whole document -/

variable {path : List JsonStep} {f : JPtr Float → Option (JPtr Float)}
  {g : JBaseObj Float → JBaseObj Float}

theorem ne_nullptr_of_get (h : p.get path = some q) (hq : q ≠ nullptr) : p ≠ nullptr := by
  rintro rfl
  cases path with
  | nil => exact hq (Option.some.inj h).symm
  | cons s path => cases s <;> cases h

theorem get_consistent (hp : p.Consistent) (h : p.get path = some q) (hq : q ≠ nullptr) :
    q.Consistent := by
  induction path generalizing p with
  | nil => exact Option.some.inj h ▸ hp
  | cons s path ih =>
    cases hp with
    | value hv => cases s <;> cases h
    | @array items hitems =>
      cases s with
      | key key => cases h
      | idx idx =>
        obtain ⟨c, hc, hrest⟩ := Option.bind_eq_some_iff.mp h
        exact ih (hitems c (List.mem_of_getElem? hc)) hrest
    | @obj maps hsorted hmaps =>
      cases s with
      | idx idx => cases h
      | key key =>
        obtain ⟨c, hc, hrest⟩ := Option.bind_eq_some_iff.mp h
        exact ih (hmaps _ (mem_of_lookup hc) (ne_nullptr_of_get hrest hq)) hrest

/-- An operation on a node is one on the document, along the path to the node. -/
theorem modify_spec (hp : p.Consistent) (hget : p.get path = some q) (hq : q ≠ nullptr)
    (hf : f q = some q') (hq' : q'.Consistent) (hview : q'.view = g q.view) :
    ∃ p', p.modify f path = some p' ∧ p'.Consistent ∧ p'.view = p.view.modify g path := by
  induction path generalizing p with
  | nil =>
    obtain rfl := Option.some.inj hget
    exact ⟨q', hf, hq', hview.trans (by rw [JBaseObj.modify])⟩
  | cons s path ih =>
    cases hp with
    | value hv => cases s <;> cases hget
    | @array items hitems =>
      cases s with
      | key key => cases hget
      | idx idx =>
        obtain ⟨c, hc, hrest⟩ := Option.bind_eq_some_iff.mp hget
        obtain ⟨c', hc', hcons, htree⟩ := ih (hitems c (List.mem_of_getElem? hc)) hrest
        obtain ⟨hset, hsetView⟩ := array_set (.array hitems) hcons idx
        refine ⟨array .array (items.set idx c'), ?_, hset, ?_⟩
        · rw [modify, hc, Option.bind_some, hc', Option.map_some]
        · have hidx : (viewItems items)[idx]? = some c.view := by
            rw [viewItems_eq, List.getElem?_map, hc, Option.map_some]
          rw [hsetView, htree, view, JBaseObj.modify, hidx, Option.elim_some]
    | @obj maps hsorted hmaps =>
      cases s with
      | idx idx => cases hget
      | key key =>
        obtain ⟨c, hc, hrest⟩ := Option.bind_eq_some_iff.mp hget
        have hne := ne_nullptr_of_get hrest hq
        obtain ⟨c', hc', hcons, htree⟩ := ih (hmaps _ (mem_of_lookup hc) hne) hrest
        obtain ⟨hset, hsetView⟩ := obj_assign (.obj hsorted hmaps) hcons key
        refine ⟨obj .obj (assign key c' maps), ?_, hset, ?_⟩
        · rw [modify, hc, Option.bind_some, hc', Option.map_some]
        · have hkey : (viewMembers maps).lookup key = some c.view := by
            rw [lookup_viewMembers hsorted, hc, Option.bind_some, if_neg (type_ne_none hne)]
          rw [hsetView, htree, view, JBaseObj.modify, hkey, Option.elim_some]

theorem get_of_modify (h : p.modify f path = some q') : ∃ q, p.get path = some q ∧ f q ≠ none := by
  induction path generalizing p q' with
  | nil => exact ⟨p, rfl, fun hnone => Option.some_ne_none q' (h.symm.trans hnone)⟩
  | cons s path ih =>
    cases p with
    | nullptr | value v => cases s <;> cases h
    | array type items =>
      cases s with
      | key key => cases h
      | idx idx =>
        obtain ⟨c, hc, hrest⟩ := Option.bind_eq_some_iff.mp h
        obtain ⟨c', hc', -⟩ := Option.map_eq_some_iff.mp hrest
        obtain ⟨q, hq, hne⟩ := ih hc'
        exact ⟨q, Option.bind_eq_some_iff.mpr ⟨c, hc, hq⟩, hne⟩
    | obj type maps =>
      cases s with
      | idx idx => cases h
      | key key =>
        obtain ⟨c, hc, hrest⟩ := Option.bind_eq_some_iff.mp h
        obtain ⟨c', hc', -⟩ := Option.map_eq_some_iff.mp hrest
        obtain ⟨q, hq, hne⟩ := ih hc'
        exact ⟨q, Option.bind_eq_some_iff.mpr ⟨c, hc, hq⟩, hne⟩

/-- The path leads to a node that has the operation. -/
def Possible (root : JPtr Float) (u : JsonUpdate Float) : Prop :=
  (root.get u.path).any (·.accepts u.op) = true

instance (root : JPtr Float) (u : JsonUpdate Float) : Decidable (Possible root u) :=
  inferInstanceAs (Decidable (_ = true))

/-- `setInt`, `setFloat`, `setStr` and `setBool` do not go to a key or an index of an array or an
object. -/
def Proper (root : JPtr Float) (u : JsonUpdate Float) : Prop :=
  (root.get u.path).all (·.settable u.op) = true

instance (root : JPtr Float) (u : JsonUpdate Float) : Decidable (Proper root u) :=
  inferInstanceAs (Decidable (_ = true))

theorem accepts_ne_nullptr {op : JsonOp Float} (h : q.accepts op = true) : q ≠ nullptr := by
  rintro rfl
  cases op <;> cases h

theorem possible_iff {root : JPtr Float} {u : JsonUpdate Float} :
    Possible root u ↔ ∃ q, root.get u.path = some q ∧ q.accepts u.op = true := by
  rw [Possible, Option.any_eq_true]

/-- In every run the tags agree with the classes, the casts are right and what was set last is in its
place, exactly if no setter but `setNull` meets an array or an object. -/
theorem updates_safe_iff {root : JPtr Float} (h : root.Consistent) {us : List (JsonUpdate Float)}
    (hpossible : Allowed Possible update root us) :
    Safe (fun t u t' => t'.Consistent ∧ t'.view = t.view.update u) update root us ↔
      Allowed Proper update root us := by
  refine safe_iff_allowed (I := Consistent) ?_ ?_ h hpossible
  · intro t u ht hu hproper
    obtain ⟨q, hget, haccepts⟩ := possible_iff.mp hu
    have hne := accepts_ne_nullptr haccepts
    have hq := get_consistent ht hget hne
    have hsettable : q.settable u.op = true := by
      rw [Proper, hget, Option.all_some] at hproper
      exact hproper
    obtain ⟨q', hq'⟩ := Option.isSome_iff_exists.mp ((perform_isSome_iff hq haccepts).mpr hsettable)
    obtain ⟨hcons, hview⟩ := perform_spec hq haccepts hq'
    obtain ⟨t', ht', htcons, htview⟩ :=
      modify_spec (f := (·.perform u.op)) (g := (·.perform u.op)) ht hget hne hq' hcons hview
    exact ⟨t', ht', ⟨htcons, htview⟩, htcons⟩
  · rintro t u t' ht hu hstep -
    obtain ⟨q, hget, haccepts⟩ := possible_iff.mp hu
    obtain ⟨q', hget', hne⟩ := get_of_modify hstep
    obtain rfl := Option.some.inj (hget.symm.trans hget')
    have hq := get_consistent ht hget (accepts_ne_nullptr haccepts)
    rw [Proper, hget, Option.all_some]
    exact (perform_isSome_iff hq haccepts).mp (Option.isSome_iff_ne_none.mpr hne)

/-- `{"a":[true]}`, in which `a` is set to null and then to `"b"`. -/
theorem updates_safe_of_replaced :
    Safe (fun t u t' => t'.Consistent ∧ t'.view = t.view.update u) update (newObj : JPtr Unit)
      [⟨[], .onObj (.createArray [97])⟩, ⟨[.key [97]], .onArray (.push (.bool true))⟩,
        ⟨[], .onObj (.setNull [97])⟩, ⟨[], .onObj (.set [97] (.str [98]))⟩] :=
  (updates_safe_iff consistent_newObj (by decide)).mpr (by decide)

/-- `setInt` of the key of an array. -/
theorem updates_cast_array :
    ∃ (root : JPtr Unit) (us : List (JsonUpdate Unit)), root.Consistent ∧
      Allowed Possible update root us ∧
      ¬ Safe (fun t u t' => t'.Consistent ∧ t'.view = t.view.update u) update root us := by
  refine ⟨newObj, [⟨[], .onObj (.createArray [97])⟩,
    ⟨[], .onObj (.set [97] (.int ⟨1, by decide⟩))⟩], consistent_newObj, by decide, ?_⟩
  rintro ⟨t, ht, -, t', ht', -⟩
  obtain rfl := Option.some.inj ht
  cases ht'

end JPtr
end LuaServer
