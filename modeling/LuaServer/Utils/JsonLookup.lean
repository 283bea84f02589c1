import LuaServer.Utils.JsonNode
import LuaServer.Reasoning.Transition

/-!
# JsonLookup — what is asked of an object, and its text afterwards

A lookup enters the key that it asks for.  A lookup that reads a node does not survive the null pointer
that it has entered, `getJsonObj` does, and the writer then follows that pointer.
-/

open Reasoning

namespace LuaServer

variable {Float : Type}

/-! ## 1. The lookups -/

namespace JPtr

/-- None is a node of another class, or another member of the union. -/
def iv : JPtr Float → Option CInt
  | value { data := .iv v, .. } => some v
  | _ => none

def fv : JPtr Float → Option Float
  | value { data := .fv v, .. } => some v
  | _ => none

def bv : JPtr Float → Option Bool
  | value { data := .bv v, .. } => some v
  | _ => none

def sv : JPtr Float → Option (List UInt8)
  | value v => some v.sv
  | _ => none

end JPtr

namespace JSonObj

variable (maps : List (List UInt8 × JPtr Float)) (key : List UInt8)

def getJsonObj : JPtr Float × List (List UInt8 × JPtr Float) := index maps key

/-- `maps[key]->…`; none is a null pointer. -/
def read {α : Type} (get : JPtr Float → α) : Option (α × List (List UInt8 × JPtr Float)) :=
  match index maps key with
  | (.nullptr, _) => none
  | (p, maps) => some (get p, maps)

def getInt : Option (Option CInt × List (List UInt8 × JPtr Float)) := read maps key (·.iv)

def getFloat : Option (Option Float × List (List UInt8 × JPtr Float)) := read maps key (·.fv)

def getBool : Option (Option Bool × List (List UInt8 × JPtr Float)) := read maps key (·.bv)

def getStr : Option (Option (List UInt8) × List (List UInt8 × JPtr Float)) := read maps key (·.sv)

def isNull : Option (Bool × List (List UInt8 × JPtr Float)) :=
  read maps key fun p => p.type = some .null

end JSonObj

inductive JsonLookup
  | getJsonObj (key : List UInt8)
  | getInt (key : List UInt8)
  | getFloat (key : List UInt8)
  | getBool (key : List UInt8)
  | getStr (key : List UInt8)
  | isNull (key : List UInt8)

namespace JSonObj

/-- The map after a lookup that returns. -/
def lookup (maps : List (List UInt8 × JPtr Float)) :
    JsonLookup → Option (List (List UInt8 × JPtr Float))
  | .getJsonObj key => some (getJsonObj maps key).2
  | .getInt key => (getInt maps key).map Prod.snd
  | .getFloat key => (getFloat maps key).map Prod.snd
  | .getBool key => (getBool maps key).map Prod.snd
  | .getStr key => (getStr maps key).map Prod.snd
  | .isNull key => (isNull maps key).map Prod.snd

variable {maps maps' : List (List UInt8 × JPtr Float)} {key : List UInt8} {l : JsonLookup}
  {ls : List JsonLookup}

theorem index_of_lookup {p : JPtr Float} (h : maps.lookup key = some p) :
    index maps key = (p, maps) := by
  rw [index, h]

theorem index_of_absent (h : maps.lookup key = none) :
    index maps key = (.nullptr, assign key .nullptr maps) := by
  rw [index, h]

/-- A lookup that reads a node and returns has found it. -/
theorem of_read {α : Type} {get : JPtr Float → α} (h : (read maps key get).map Prod.snd = some maps') :
    maps' = maps := by
  cases hlookup : maps.lookup key with
  | none =>
    rw [read, index_of_absent hlookup] at h
    cases h
  | some p =>
    rw [read, index_of_lookup hlookup] at h
    cases p <;> cases h <;> rfl

/-- A lookup leaves the map as it is, unless `getJsonObj` asks for an absent key. -/
theorem of_lookup (h : lookup maps l = some maps') :
    maps' = maps ∧ (∀ key, l = .getJsonObj key → maps.lookup key ≠ none) ∨
      ∃ key, l = .getJsonObj key ∧ maps.lookup key = none ∧ maps'.lookup key = some .nullptr := by
  cases l with
  | getJsonObj key =>
    obtain rfl := Option.some.inj h
    cases hlookup : maps.lookup key with
    | none =>
      refine .inr ⟨key, rfl, hlookup, ?_⟩
      rw [getJsonObj, index_of_absent hlookup]
      exact lookup_assign_self key _ maps
    | some p =>
      rw [getJsonObj, index_of_lookup hlookup]
      refine .inl ⟨rfl, fun key' hkey => ?_⟩
      cases hkey
      rw [hlookup]
      exact Option.some_ne_none p
  | _ => exact .inl ⟨of_read h, nofun⟩

theorem lookup_keeps {p : JPtr Float} (h : lookup maps l = some maps')
    (hkey : maps.lookup key = some p) : maps'.lookup key = some p := by
  cases l with
  | getJsonObj key' =>
    obtain rfl := Option.some.inj h
    cases hlookup : maps.lookup key' with
    | none =>
      have hne : key ≠ key' := by
        rintro rfl
        exact Option.some_ne_none p (hkey.symm.trans hlookup)
      rw [getJsonObj, index_of_absent hlookup]
      exact (lookup_assign_of_ne hne _ maps).trans hkey
    | some q =>
      rw [getJsonObj, index_of_lookup hlookup]
      exact hkey
  | _ => exact of_read h ▸ hkey

theorem run_keeps {p : JPtr Float} (h : run lookup maps ls = some maps')
    (hkey : maps.lookup key = some p) : maps'.lookup key = some p := by
  induction ls generalizing maps with
  | nil => exact Option.some.inj h ▸ hkey
  | cons l ls ih =>
    obtain ⟨m, hm, hrest⟩ := run_cons_iff.mp h
    exact ih hrest (lookup_keeps hm hkey)

/-- If in the end there is no null pointer, every lookup has found its key. -/
theorem present_of_run (h : run lookup maps ls = some maps')
    (hnull : ∀ e ∈ maps', e.2 ≠ .nullptr) {key : List UInt8} (hkey : .getJsonObj key ∈ ls) :
    maps.lookup key ≠ none := by
  induction ls generalizing maps with
  | nil => exact absurd hkey List.not_mem_nil
  | cons l ls ih =>
    obtain ⟨m, hm, hrest⟩ := run_cons_iff.mp h
    rcases of_lookup hm with ⟨rfl, hl⟩ | ⟨key', -, -, hnew⟩
    · rcases List.mem_cons.mp hkey with hkey | hkey
      · exact hl key hkey.symm
      · exact ih hrest hkey
    · exact absurd rfl (hnull _ (mem_of_lookup (run_keeps hrest hnew)))

theorem run_of_present (h : run lookup maps ls = some maps')
    (hls : ∀ key, .getJsonObj key ∈ ls → maps.lookup key ≠ none) : maps' = maps := by
  induction ls generalizing maps with
  | nil => exact (Option.some.inj h).symm
  | cons l ls ih =>
    obtain ⟨m, hm, hrest⟩ := run_cons_iff.mp h
    rcases of_lookup hm with ⟨rfl, -⟩ | ⟨key, rfl, habsent, -⟩
    · exact ih hrest fun key hkey => hls key (List.mem_cons_of_mem l hkey)
    · exact absurd habsent (hls key List.mem_cons_self)

end JSonObj

/-! ## 2. The text -/

namespace JPtr

/-- No null pointer at any depth. -/
inductive Whole : JPtr Float → Prop
  | value {v : JValue Float} : Whole (value v)
  | array {type : JsonType} {items : List (JPtr Float)} (h : ∀ p ∈ items, Whole p) :
      Whole (array type items)
  | obj {type : JsonType} {maps : List (List UInt8 × JPtr Float)} (h : ∀ e ∈ maps, Whole e.2) :
      Whole (obj type maps)

variable {f : Float → List UInt8} {layout : Bool} {p : JPtr Float} {items : List (JPtr Float)}
  {maps : List (List UInt8 × JPtr Float)} {text : List UInt8} {depth : Nat}

theorem Whole.ne_nullptr (h : p.Whole) : p ≠ nullptr := by
  rintro rfl
  cases h

theorem writeItems_each (h : writeItems f layout items depth = some text) :
    ∀ p ∈ items, ∃ text, writeAt f layout p depth = some text := by
  induction items generalizing text with
  | nil => exact fun p hp => absurd hp List.not_mem_nil
  | cons p items ih =>
    obtain ⟨head, hhead, hrest⟩ := Option.bind_eq_some_iff.mp h
    obtain ⟨rest, hitems, -⟩ := Option.map_eq_some_iff.mp hrest
    exact List.forall_mem_cons.mpr ⟨⟨head, hhead⟩, ih hitems⟩

theorem writeMembers_each (h : writeMembers f layout maps depth = some text) :
    ∀ e ∈ maps, ∃ text, writeAt f layout e.2 depth = some text := by
  induction maps generalizing text with
  | nil => exact fun e he => absurd he List.not_mem_nil
  | cons e maps ih =>
    obtain ⟨head, hhead, hrest⟩ := Option.bind_eq_some_iff.mp h
    obtain ⟨rest, hmaps, -⟩ := Option.map_eq_some_iff.mp hrest
    exact List.forall_mem_cons.mpr ⟨⟨head, hhead⟩, ih hmaps⟩

/-- The writer comes past every pointer. -/
theorem whole_of_writeAt (h : writeAt f layout p depth = some text) : p.Whole := by
  induction p generalizing text depth with
  | nullptr => cases h
  | value v => exact .value
  | array type items ih =>
    obtain ⟨inner, hinner, -⟩ := Option.map_eq_some_iff.mp h
    refine .array fun p hp => ?_
    obtain ⟨text', htext'⟩ := writeItems_each hinner p hp
    exact ih p hp htext'
  | obj type maps ih =>
    obtain ⟨inner, hinner, -⟩ := Option.map_eq_some_iff.mp h
    refine .obj fun e he => ?_
    obtain ⟨text', htext'⟩ := writeMembers_each hinner e he
    exact ih e he htext'

theorem write_tree {v : JValue Float} (h : v.agrees = true) :
    v.write f = some (v.tree.writeAt f layout depth) := by
  obtain ⟨type, data, sv⟩ := v
  cases type <;> cases data <;> first | rfl | cases h

theorem writeItems_view
    (h : ∀ p ∈ items, writeAt f layout p depth = some (p.view.writeAt f layout depth)) :
    writeItems f layout items depth = some (JBaseObj.writeItems f layout (viewItems items) depth) := by
  induction items with
  | nil => rfl
  | cons p items ih =>
    obtain ⟨hp, hitems⟩ := List.forall_mem_cons.mp h
    have hcomma : JBaseObj.comma (viewItems items) = JBaseObj.comma items := by
      cases items <;> rfl
    rw [writeItems, hp, Option.bind_some, ih hitems, Option.map_some, viewItems,
      JBaseObj.writeItems, hcomma]

theorem writeMembers_view
    (h : ∀ e ∈ maps, writeAt f layout e.2 depth = some (e.2.view.writeAt f layout depth)) :
    writeMembers f layout maps depth =
      some (JBaseObj.writeMembers f layout (viewMembers maps) depth) := by
  induction maps with
  | nil => rfl
  | cons e maps ih =>
    obtain ⟨key, p⟩ := e
    obtain ⟨hp, hmaps⟩ := List.forall_mem_cons.mp h
    have hne (e : List UInt8 × JPtr Float) (he : e ∈ (key, p) :: maps) : e.2 ≠ nullptr := by
      intro hnull
      have hnone := h e he
      rw [hnull] at hnone
      cases hnone
    have hcomma : JBaseObj.comma (viewMembers maps) = JBaseObj.comma maps := by
      cases maps with
      | nil => rfl
      | cons e maps =>
        rw [viewMembers_cons (hne e (List.mem_cons_of_mem _ List.mem_cons_self))]
        rfl
    rw [writeMembers, hp, Option.bind_some, ih hmaps, Option.map_some,
      viewMembers_cons (hne _ List.mem_cons_self), JBaseObj.writeMembers, hcomma]

/-- The nodes are written as the tree that they stand for. -/
theorem writeAt_view (hcons : p.Consistent) (hwhole : p.Whole) (depth : Nat) :
    writeAt f layout p depth = some (p.view.writeAt f layout depth) := by
  induction p generalizing depth with
  | nullptr => cases hwhole
  | value v =>
    cases hcons with
    | value h => exact write_tree h
  | array type items ih =>
    cases hcons with
    | array hitems =>
      cases hwhole with
      | array hwhole =>
        rw [writeAt, writeItems_view fun p hp => ih p hp (hitems p hp) (hwhole p hp) _]
        rfl
  | obj type maps ih =>
    cases hcons with
    | obj hsorted hmaps =>
      cases hwhole with
      | obj hwhole =>
        have heach (e : List UInt8 × JPtr Float) (he : e ∈ maps) :=
          ih e he (hmaps e he (hwhole e he).ne_nullptr) (hwhole e he) (depth + 1)
        rw [writeAt, writeMembers_view heach]
        rfl

end JPtr

namespace JSonObj

variable {maps maps' : List (List UInt8 × JPtr Float)}

/-- The map and the text are as before, exactly if there is no null pointer in the object and
`getJsonObj` asks only for keys that are there. -/
theorem lookups_unchanged_iff (f : Float → List UInt8) (layout : Bool)
    (h : (JPtr.obj .obj maps).Consistent) {ls : List JsonLookup}
    (hrun : run lookup maps ls = some maps') :
    (maps' = maps ∧ ∃ text, (JPtr.obj .obj maps).write f layout = some text ∧
      (JPtr.obj .obj maps').write f layout = some text) ↔
      (JPtr.obj .obj maps).Whole ∧ ∀ key, .getJsonObj key ∈ ls → maps.lookup key ≠ none := by
  constructor
  · rintro ⟨rfl, text, htext, -⟩
    have hwhole := JPtr.whole_of_writeAt htext
    cases hwhole with
    | obj hmaps =>
      exact ⟨.obj hmaps, fun key => present_of_run hrun fun e he => (hmaps e he).ne_nullptr⟩
  · rintro ⟨hwhole, hls⟩
    obtain rfl := run_of_present hrun hls
    have htext : (JPtr.obj .obj maps').write f layout = _ := JPtr.writeAt_view h hwhole 0
    exact ⟨rfl, _, htext, htext⟩

/-- Lookups in `{"a":true}`. -/
theorem lookups_unchanged_of_present :
    run lookup [([97], (.value (JValue.setBool {} true) : JPtr Unit))]
        [.getJsonObj [97], .getBool [97], .isNull [97]] =
          some [([97], .value (JValue.setBool {} true))] ∧
      ∃ text, (JPtr.obj .obj [([97], .value (JValue.setBool {} true))] : JPtr Unit).write
        (fun _ => []) false = some text := by
  have hcons : (JPtr.obj .obj [([97], .value (JValue.setBool {} true))] : JPtr Unit).Consistent :=
    .obj (by decide) (by rintro e he -; cases List.mem_singleton.mp he; exact .value rfl)
  have hrun : run lookup [([97], (.value (JValue.setBool {} true) : JPtr Unit))]
      [.getJsonObj [97], .getBool [97], .isNull [97]] =
        some [([97], .value (JValue.setBool {} true))] := rfl
  have hpresent (key : List UInt8)
      (hkey : .getJsonObj key ∈ [JsonLookup.getJsonObj [97], .getBool [97], .isNull [97]]) :
      [([97], (.value (JValue.setBool {} true) : JPtr Unit))].lookup key ≠ none := by
    obtain rfl : key = [97] := by simpa using hkey
    exact nofun
  obtain ⟨-, text, htext, -⟩ :=
    (lookups_unchanged_iff (fun _ => []) false hcons hrun).mpr
      ⟨.obj (by rintro e he; cases List.mem_singleton.mp he; exact .value), hpresent⟩
  exact ⟨hrun, text, htext⟩

/-- `getJsonObj` of a key that an empty object does not have. -/
theorem lookups_enter_null :
    run lookup ([] : List (List UInt8 × JPtr Unit)) [.getJsonObj [97]] =
        some [([97], .nullptr)] ∧
      (JPtr.obj .obj [] : JPtr Unit).write (fun _ => []) false = some [123, 125] ∧
      (JPtr.obj .obj [([97], .nullptr)] : JPtr Unit).write (fun _ => []) false = none :=
  ⟨rfl, rfl, rfl⟩

end JSonObj
end LuaServer
