import LuaServer.Utils.JsonRoundTrip

/-!
# JsonLayout — the same document with and without layout

The layout puts blanks between the values, and the reader passes over them before a value and
behind one.  It does not behind an opening bracket: with layout an empty array or object is refused.
A quotation mark in a text is not escaped, and what follows it is read as part of the document.
-/

open Reasoning

namespace LuaServer.JsonReader

variable {Float : Type} (stof : List UInt8 → Option Float) (toStringFloat : Float → List UInt8)

/-- The parser refuses both texts or makes the same tree of them. -/
def SameResult (a b : List UInt8) : Prop := ∀ t : JBaseObj Float, Parses stof a t ↔ Parses stof b t

/-- The node is no empty array and no empty object. -/
def nonempty : JBaseObj Float → Bool
  | .array items => items ≠ []
  | .obj maps => maps ≠ []
  | _ => true

/-- The reader can read the texts of the node: they are not empty, keys have no NUL, and a `float`
is finite and in range. -/
def readable : JBaseObj Float → Bool
  | .float fv => (rereadFloat stof toStringFloat fv).isSome
  | .str sv => legible sv
  | .obj maps => maps.all fun e => legible e.1
  | _ => true

/-! ## 1. What the layout takes away -/

theorem rereadItems_true_iff {items : List (JBaseObj Float)}
    (h : ∀ value ∈ items, ∀ v, reread stof toStringFloat true value = some v ↔
      value.all nonempty = true ∧ reread stof toStringFloat false value = some v)
    (values : List (JBaseObj Float)) :
    rereadItems stof toStringFloat true items = some values ↔
      (∀ value ∈ items, value.all nonempty = true) ∧
        rereadItems stof toStringFloat false items = some values := by
  induction items generalizing values with
  | nil => simp [rereadItems]
  | cons value items ih =>
    have hvalue := h value List.mem_cons_self
    have hitems := ih fun x hx => h x (List.mem_cons_of_mem value hx)
    simp only [rereadItems, Option.bind_eq_some_iff, Option.map_eq_some_iff, hvalue, hitems,
      List.forall_mem_cons]
    grind

theorem rereadMembers_true_iff {maps : List (List UInt8 × JBaseObj Float)}
    (h : ∀ e ∈ maps, ∀ v, reread stof toStringFloat true e.2 = some v ↔
      e.2.all nonempty = true ∧ reread stof toStringFloat false e.2 = some v)
    (values : List (List UInt8 × JBaseObj Float)) :
    rereadMembers stof toStringFloat true maps = some values ↔
      (∀ e ∈ maps, e.2.all nonempty = true) ∧
        rereadMembers stof toStringFloat false maps = some values := by
  induction maps generalizing values with
  | nil => simp [rereadMembers]
  | cons e maps ih =>
    have he := h e List.mem_cons_self
    have hmaps := ih fun x hx => h x (List.mem_cons_of_mem e hx)
    simp only [rereadMembers, Option.ite_none_right_eq_some, Option.bind_eq_some_iff,
      Option.map_eq_some_iff, he, hmaps, List.forall_mem_cons]
    grind

/-- With layout a tree is read back as without, if no part of it is empty. -/
theorem reread_true_iff (t v : JBaseObj Float) :
    reread stof toStringFloat true t = some v ↔
      t.all nonempty = true ∧ reread stof toStringFloat false t = some v := by
  induction t generalizing v with
  | int | float | null | str | bool => exact (and_iff_right rfl).symm
  | array items ih =>
    have hitems := rereadItems_true_iff stof toStringFloat ih
    simp only [reread, Option.ite_none_left_eq_some, Option.map_eq_some_iff, hitems,
      JBaseObj.all_array_iff, nonempty, decide_eq_true_eq]
    grind
  | obj maps ih =>
    have hmembers := rereadMembers_true_iff stof toStringFloat ih
    simp only [reread, Option.ite_none_left_eq_some, Option.map_eq_some_iff, hmembers,
      JBaseObj.all_obj_iff, nonempty, decide_eq_true_eq]
    grind

/-! ## 2. What is read back at all -/

theorem rereadItems_isSome_iff {items : List (JBaseObj Float)} :
    (rereadItems stof toStringFloat false items).isSome = true ↔
      ∀ value ∈ items, (reread stof toStringFloat false value).isSome = true := by
  induction items with
  | nil => simp [rereadItems]
  | cons value items ih =>
    rw [List.forall_mem_cons, ← ih, rereadItems]
    cases reread stof toStringFloat false value <;> simp

theorem rereadMembers_isSome_iff {maps : List (List UInt8 × JBaseObj Float)} :
    (rereadMembers stof toStringFloat false maps).isSome = true ↔
      ∀ e ∈ maps, legible e.1 = true ∧ (reread stof toStringFloat false e.2).isSome = true := by
  induction maps with
  | nil => simp [rereadMembers]
  | cons e maps ih =>
    rw [List.forall_mem_cons, ← ih, rereadMembers]
    cases legible e.1 <;> cases reread stof toStringFloat false e.2 <;> simp

theorem reread_isSome_iff (t : JBaseObj Float) :
    (reread stof toStringFloat false t).isSome = true ↔
      t.all (readable stof toStringFloat) = true := by
  induction t with
  | int | null | bool => exact iff_of_true rfl rfl
  | float fv => simp [reread, JBaseObj.all, readable]
  | str sv =>
    rw [reread, JBaseObj.all, readable]
    cases legible sv <;> simp
  | array items ih =>
    simp only [reread, JBaseObj.all_array_iff, readable, Bool.false_eq_true, false_and, if_false,
      Option.isSome_map, rereadItems_isSome_iff, true_and]
    exact forall₂_congr ih
  | obj maps ih =>
    simp only [reread, JBaseObj.all_obj_iff, readable, Bool.false_eq_true, false_and, if_false,
      Option.isSome_map, rereadMembers_isSome_iff, List.all_eq_true, ← forall₂_and]
    exact forall₂_congr fun e he => and_congr_right' (ih e he)

/-! ## 3. The two layouts -/

variable {stof toStringFloat} in
/-- The two texts of a tree without quotation marks give the same result exactly when no array and
no object in it is empty, or when no reader can read it anyway. -/
theorem layouts_agree_iff (hform : ∀ fv, FloatText (toStringFloat fv)) {t : JBaseObj Float}
    (hbuilt : t.Built) (hquote : t.all quoteFree = true) :
    SameResult stof (t.write toStringFloat true) (t.write toStringFloat false) ↔
      t.all nonempty = true ∨ ¬ t.all (readable stof toStringFloat) = true := by
  have hsorted := hbuilt.keysSorted
  unfold SameResult
  simp only [parses_write_iff stof toStringFloat hform _ hquote hsorted, reread_true_iff]
  rw [← reread_isSome_iff]
  constructor
  · intro h
    by_contra hnot
    obtain ⟨hempty, hsome⟩ := not_or.mp hnot
    obtain ⟨v, hv⟩ := Option.isSome_iff_exists.mp (not_not.mp hsome)
    exact hempty ((h v).mpr hv).1
  · rintro (hnonempty | hnone) v
    · exact and_iff_right hnonempty
    · refine iff_of_false (fun h => hnone ?_) (fun h => hnone ?_)
      · exact Option.isSome_iff_exists.mpr ⟨v, h.2⟩
      · exact Option.isSome_iff_exists.mpr ⟨v, h⟩

/-- `{"a":[1.5]}`. -/
theorem layouts_agree_iff_nonempty :
    SameResult (fun _ => some ())
      ((JBaseObj.obj [([97], .array [.float ()])]).write (fun _ => [49, 46, 53]) true)
      ((JBaseObj.obj [([97], .array [.float ()])]).write (fun _ => [49, 46, 53]) false) := by
  have hform : ∀ _ : Unit, FloatText [49, 46, 53] :=
    fun _ => ⟨[], .inl rfl, .inl ⟨[49], [53], by decide, List.forall_mem_singleton.mpr rfl,
      List.forall_mem_singleton.mpr rfl, rfl⟩⟩
  have hbuilt : (JBaseObj.obj [([97], .array [.float ()])]).Built :=
    .setMember .obj [97] (.push .array (.float ()))
  exact (layouts_agree_iff hform hbuilt rfl).mpr (.inl rfl)

/-- `[]` is refused with layout; and of the strings `a"` and `"b` an array becomes in which the
blank of the layout stands inside a string. -/
theorem layouts_differ :
    (∃ t : JBaseObj Unit, t.Built ∧ t = .array [] ∧
      ¬ SameResult (fun _ => some ()) (t.write (fun _ => []) true) (t.write (fun _ => []) false)) ∧
    ∃ t : JBaseObj Unit, t.Built ∧ t = .array [.str [97, 34], .str [34, 98]] ∧
      ¬ SameResult (fun _ => some ()) (t.write (fun _ => []) true)
          (t.write (fun _ => []) false) := by
  constructor
  · refine ⟨.array [], .array, rfl, fun h => ?_⟩
    obtain ⟨rest, hrest⟩ := (h (.array [])).mpr ⟨_, rfl⟩
    cases hrest
  · refine ⟨.array [.str [97, 34], .str [34, 98]],
      .push (.push .array (.str _ (by decide))) (.str _ (by decide)), rfl, fun h => ?_⟩
    obtain ⟨rest, hrest⟩ := (h (.array [.str [97], .str [44], .str [98]])).mpr ⟨_, rfl⟩
    cases hrest

end LuaServer.JsonReader
