import LuaServer.Utils.Json

/-!
# JsonUnique — trees with the same text

The writer does not escape the quotation marks of a string, so that two trees may have one text.  A
quotation mark does harm only in front of what may stand behind the string: behind a key a colon,
behind a value of an array or of an object a comma or its bracket.  Otherwise it cannot be taken for
the end of the string.
-/

open Reasoning

namespace LuaServer

namespace JBaseObj

variable {Float : Type}

/-! ## 1. Strings -/

/-- What may stand behind a key, behind a value of an array and behind one of an object. -/
def keyStop (c : UInt8) : Bool := c = 58

def itemStop (c : UInt8) : Bool := c = 44 || c = 93

def memberStop (c : UInt8) : Bool := c = 44 || c = 125

/-- No quotation mark in the string looks like the one behind it. -/
def holdsTogether (stop : UInt8 → Bool) : List UInt8 → Bool
  | [] => true
  | c :: s => !(c = 34 && s.head?.any stop) && holdsTogether stop s

/-- The end of the text, or something that may stand there. -/
def Stops (stop : UInt8 → Bool) (rest : List UInt8) : Prop := rest.head?.all stop = true

/-- Neither quotation marks nor digits. -/
def Separates (stop : UInt8 → Bool) : Prop := ∀ c, stop c = true → c ≠ 34 ∧ isDigit c = false

theorem keyStop_separates : Separates keyStop := by
  intro c hc
  obtain rfl : c = 58 := by simpa [keyStop] using hc
  exact ⟨by decide, by decide⟩

theorem itemStop_separates : Separates itemStop := by
  intro c hc
  have hcases : c = 44 ∨ c = 93 := by simpa [itemStop] using hc
  rcases hcases with rfl | rfl <;> exact ⟨by decide, by decide⟩

theorem memberStop_separates : Separates memberStop := by
  intro c hc
  have hcases : c = 44 ∨ c = 125 := by simpa [memberStop] using hc
  rcases hcases with rfl | rfl <;> exact ⟨by decide, by decide⟩

/-- Nothing stands behind the text. -/
theorem separates_end : Separates fun _ => false := fun _ hc => absurd hc Bool.false_ne_true

section
variable {stop : UInt8 → Bool} (hstop : Separates stop)

theorem stops_cons {c : UInt8} (hc : stop c = true) (rest : List UInt8) : Stops stop (c :: rest) :=
  hc

include hstop

/-- The quotation mark behind a string is not one of the string. -/
theorem ne_cons_of_holdsTogether {c : UInt8} {s r r' : List UInt8}
    (hs : holdsTogether stop (c :: s) = true) (hr : Stops stop r) :
    34 :: r ≠ c :: s ++ 34 :: r' := by
  intro heq
  obtain ⟨rfl, rfl⟩ := List.cons.inj heq
  cases s with
  | nil => exact absurd rfl (hstop 34 hr).1
  | cons d s =>
    have hd : stop d = true := hr
    simp [holdsTogether, hd] at hs

theorem string_unique {s s' r r' : List UInt8} (hs : holdsTogether stop s = true)
    (hs' : holdsTogether stop s' = true) (hr : Stops stop r) (hr' : Stops stop r')
    (heq : s ++ 34 :: r = s' ++ 34 :: r') : s = s' ∧ r = r' := by
  induction s generalizing s' with
  | nil =>
    cases s' with
    | nil => exact ⟨rfl, (List.cons.inj heq).2⟩
    | cons c s' => exact absurd heq (ne_cons_of_holdsTogether hstop hs' hr)
  | cons c s ih =>
    cases s' with
    | nil => exact absurd heq.symm (ne_cons_of_holdsTogether hstop hs hr')
    | cons c' s' =>
      obtain ⟨rfl, htail⟩ := List.cons.inj heq
      rw [holdsTogether, Bool.and_eq_true] at hs hs'
      obtain ⟨rfl, hrest⟩ := ih hs.2 hs'.2 htail
      exact ⟨rfl, hrest⟩

/-! ## 2. Numbers -/

theorem toStringInt_unique {i i' : CInt} {r r' : List UInt8} (hr : Stops stop r)
    (hr' : Stops stop r') (heq : toStringInt i ++ r = toStringInt i' ++ r') : i = i' ∧ r = r' := by
  have hhead : ∀ {s : List UInt8}, Stops stop s → ∀ c ∈ s.head?, isDigit c = false :=
    fun hs c hc => (hstop c ((Option.all_eq_true _ _).mp hs c hc)).2
  obtain ⟨hval, hrest⟩ := intNumeral_unique (hhead hr) (hhead hr') heq
  exact ⟨Subtype.ext hval, hrest⟩

end

/-! ## 3. Trees -/

/-- A string that holds together; or no string. -/
def holds (stop : UInt8 → Bool) : JBaseObj Float → Bool
  | str sv => holdsTogether stop sv
  | _ => true

/-- No `float`, and in an array or object the strings and keys hold together. -/
def unmistakable : JBaseObj Float → Bool
  | int _ => true
  | float _ => false
  | null => true
  | str _ => true
  | bool _ => true
  | array items => items.all fun value => value.holds itemStop
  | obj maps => maps.all fun e => holdsTogether keyStop e.1 && e.2.holds memberStop

def sort : JBaseObj Float → Nat
  | int _ => 0
  | float _ => 1
  | null => 2
  | str _ => 3
  | bool _ => 4
  | array _ => 5
  | obj _ => 6

/-- What a value is can be seen from its first character. -/
def sortOf (c : UInt8) : Nat :=
  if c = 45 ∨ isDigit c = true then 0
  else if c = 110 then 2
  else if c = 34 then 3
  else if c = 116 ∨ c = 102 then 4
  else if c = 91 then 5
  else if c = 123 then 6
  else 7

variable (f : Float → List UInt8)

theorem writeAt_head {t : JBaseObj Float} (h : unmistakable t = true) (depth : Nat) :
    ∃ c cs, t.writeAt f false depth = c :: cs ∧ sortOf c = t.sort := by
  cases t with
  | int iv =>
    rw [writeAt, toStringInt]
    split
    · exact ⟨45, _, rfl, rfl⟩
    · obtain ⟨c, ds, hn, hc⟩ := numeral_head iv.val.natAbs
      exact ⟨c, ds, hn, if_pos (.inr hc)⟩
  | float fv => cases h
  | null => exact ⟨110, _, rfl, rfl⟩
  | str sv => exact ⟨34, _, rfl, rfl⟩
  | bool bv =>
    cases bv
    · exact ⟨102, _, rfl, rfl⟩
    · exact ⟨116, _, rfl, rfl⟩
  | array items => exact ⟨91, _, rfl, rfl⟩
  | obj maps => exact ⟨123, _, rfl, rfl⟩

/-- A text that begins with the tree begins with no other one, whatever may stand behind it. -/
def Unique (t : JBaseObj Float) : Prop :=
  ∀ (stop : UInt8 → Bool) (t' : JBaseObj Float) (r r' : List UInt8) (depth depth' : Nat),
    Separates stop → t.holds stop = true → t'.holds stop = true → t'.all unmistakable = true →
    Stops stop r → Stops stop r' →
      t.writeAt f false depth ++ r = t'.writeAt f false depth' ++ r' → t = t' ∧ r = r'

variable {f} {t t' : JBaseObj Float} {r r' : List UInt8} {depth depth' : Nat}

theorem node_of_all {p : JBaseObj Float → Bool} (h : t.all p = true) : p t = true := by
  cases t with
  | array items => exact (all_array_iff.mp h).1
  | obj maps => exact (all_obj_iff.mp h).1
  | _ => exact h

theorem sort_eq (h : unmistakable t = true) (h' : unmistakable t' = true)
    (heq : t.writeAt f false depth ++ r = t'.writeAt f false depth' ++ r') : t.sort = t'.sort := by
  obtain ⟨c, cs, hc, hsort⟩ := writeAt_head f h depth
  obtain ⟨c', cs', hc', hsort'⟩ := writeAt_head f h' depth'
  rw [hc, hc'] at heq
  obtain ⟨rfl, -⟩ := List.cons.inj heq
  exact hsort.symm.trans hsort'

/-- A value does not begin like the end of an array. -/
theorem bracket_ne_writeAt (h : unmistakable t = true) (x : List UInt8) :
    93 :: r ≠ t.writeAt f false depth ++ x := by
  obtain ⟨c, cs, hc, hsort⟩ := writeAt_head f h depth
  rw [hc]
  intro heq
  obtain ⟨rfl, -⟩ := List.cons.inj heq
  cases t <;> cases hsort

/-- The comma, or the bracket behind the last. -/
theorem stops_comma {α : Type} {stop : UInt8 → Bool} (hcomma : stop 44 = true) (rest : List α)
    (x : List UInt8) {c : UInt8} (hc : stop c = true) (hx : rest = [] → x = c :: r) :
    Stops stop (comma rest ++ x) := by
  cases rest with
  | nil =>
    rw [hx rfl]
    exact stops_cons hc r
  | cons a rest => exact stops_cons hcomma x

theorem comma_cancel {α : Type} {rest rest' : List α} {x x' : List UInt8} {c : UInt8}
    (hc : c ≠ 44) (hx : rest = [] → x = c :: r) (hx' : rest' = [] → x' = c :: r')
    (heq : comma rest ++ x = comma rest' ++ x') : x = x' := by
  cases rest with
  | nil =>
    cases rest' with
    | nil => exact heq
    | cons a rest' =>
      rw [hx rfl] at heq
      exact absurd (List.cons.inj heq).1 hc
  | cons a rest =>
    cases rest' with
    | nil =>
      rw [hx' rfl] at heq
      exact absurd (List.cons.inj heq).1.symm hc
    | cons a' rest' => exact (List.cons.inj heq).2

theorem writeItems_cons (value : JBaseObj Float) (items : List (JBaseObj Float)) (x : List UInt8) :
    writeItems f false (value :: items) depth ++ x =
      value.writeAt f false depth ++ (comma items ++ (writeItems f false items depth ++ x)) := by
  simp [writeItems, writeDepth, newline]

theorem writeMembers_cons (key : List UInt8) (value : JBaseObj Float)
    (maps : List (List UInt8 × JBaseObj Float)) (x : List UInt8) :
    writeMembers f false ((key, value) :: maps) depth ++ x =
      34 :: (key ++ 34 :: 58 :: (value.writeAt f false depth ++
        (comma maps ++ (writeMembers f false maps depth ++ x)))) := by
  simp [writeMembers, writeDepth, newline, quoted]

theorem items_unique {items items' : List (JBaseObj Float)} (hitems : ∀ value ∈ items, Unique f value)
    (hplain : ∀ value ∈ items, value.all unmistakable = true)
    (hplain' : ∀ value ∈ items', value.all unmistakable = true)
    (hholds : ∀ value ∈ items, value.holds itemStop = true)
    (hholds' : ∀ value ∈ items', value.holds itemStop = true)
    (heq : writeItems f false items depth ++ 93 :: r =
      writeItems f false items' depth' ++ 93 :: r') : items = items' ∧ r = r' := by
  induction items generalizing items' with
  | nil =>
    cases items' with
    | nil => exact ⟨rfl, (List.cons.inj heq).2⟩
    | cons value' items' =>
      rw [writeItems_cons] at heq
      exact absurd heq (bracket_ne_writeAt (node_of_all (hplain' _ List.mem_cons_self)) _)
  | cons value items ih =>
    cases items' with
    | nil =>
      rw [writeItems_cons] at heq
      exact absurd heq.symm (bracket_ne_writeAt (node_of_all (hplain _ List.mem_cons_self)) _)
    | cons value' items' =>
      rw [writeItems_cons, writeItems_cons] at heq
      have hend : items = [] → writeItems f false items depth ++ 93 :: r = 93 :: r := by
        rintro rfl
        rfl
      have hend' : items' = [] → writeItems f false items' depth' ++ 93 :: r' = 93 :: r' := by
        rintro rfl
        rfl
      obtain ⟨rfl, htail⟩ := hitems value List.mem_cons_self itemStop value' _ _ depth depth'
        itemStop_separates (hholds _ List.mem_cons_self) (hholds' _ List.mem_cons_self)
        (hplain' _ List.mem_cons_self) (stops_comma rfl items _ rfl hend)
        (stops_comma rfl items' _ rfl hend') heq
      obtain ⟨rfl, hrest⟩ := ih (fun x hx => hitems x (List.mem_cons_of_mem value hx))
        (fun x hx => hplain x (List.mem_cons_of_mem value hx))
        (fun x hx => hplain' x (List.mem_cons_of_mem value hx))
        (fun x hx => hholds x (List.mem_cons_of_mem value hx))
        (fun x hx => hholds' x (List.mem_cons_of_mem value hx))
        (comma_cancel (by decide) hend hend' htail)
      exact ⟨rfl, hrest⟩

theorem members_unique {maps maps' : List (List UInt8 × JBaseObj Float)}
    (hmaps : ∀ e ∈ maps, Unique f e.2)
    (hholds : ∀ e ∈ maps, holdsTogether keyStop e.1 = true ∧ e.2.holds memberStop = true)
    (hholds' : ∀ e ∈ maps', holdsTogether keyStop e.1 = true ∧ e.2.holds memberStop = true)
    (hplain' : ∀ e ∈ maps', e.2.all unmistakable = true)
    (heq : writeMembers f false maps depth ++ 125 :: r =
      writeMembers f false maps' depth' ++ 125 :: r') : maps = maps' ∧ r = r' := by
  induction maps generalizing maps' with
  | nil =>
    cases maps' with
    | nil => exact ⟨rfl, (List.cons.inj heq).2⟩
    | cons e' maps' =>
      rw [writeMembers_cons] at heq
      exact absurd (List.cons.inj heq).1 (by decide)
  | cons e maps ih =>
    cases maps' with
    | nil =>
      rw [writeMembers_cons] at heq
      exact absurd (List.cons.inj heq).1 (by decide)
    | cons e' maps' =>
      obtain ⟨key, value⟩ := e
      obtain ⟨key', value'⟩ := e'
      rw [writeMembers_cons, writeMembers_cons] at heq
      have hend : maps = [] → writeMembers f false maps depth ++ 125 :: r = 125 :: r := by
        rintro rfl
        rfl
      have hend' : maps' = [] → writeMembers f false maps' depth' ++ 125 :: r' = 125 :: r' := by
        rintro rfl
        rfl
      obtain ⟨hkey, hvalue⟩ := hholds _ List.mem_cons_self
      obtain ⟨hkey', hvalue'⟩ := hholds' _ List.mem_cons_self
      obtain ⟨rfl, hbehind⟩ := string_unique keyStop_separates hkey hkey' (stops_cons rfl _)
        (stops_cons rfl _) (List.cons.inj heq).2
      obtain ⟨rfl, htail⟩ := hmaps _ List.mem_cons_self memberStop value' _ _ depth depth'
        memberStop_separates hvalue hvalue' (hplain' _ List.mem_cons_self)
        (stops_comma rfl maps _ rfl hend) (stops_comma rfl maps' _ rfl hend')
        (List.cons.inj hbehind).2
      obtain ⟨rfl, hrest⟩ := ih (fun x hx => hmaps x (List.mem_cons_of_mem _ hx))
        (fun x hx => hholds x (List.mem_cons_of_mem _ hx))
        (fun x hx => hholds' x (List.mem_cons_of_mem _ hx))
        (fun x hx => hplain' x (List.mem_cons_of_mem _ hx))
        (comma_cancel (by decide) hend hend' htail)
      exact ⟨rfl, hrest⟩

theorem unique_of_unmistakable (h : t.all unmistakable = true) : Unique f t := by
  induction t with
  | int iv =>
    intro stop t' r r' depth depth' hstop hholds hholds' h' hr hr' heq
    cases t' with
    | int iv' =>
      obtain ⟨rfl, hrest⟩ := toStringInt_unique hstop hr hr' heq
      exact ⟨rfl, hrest⟩
    | _ => cases sort_eq (node_of_all h) (node_of_all h') heq
  | float fv => cases h
  | null =>
    intro stop t' r r' depth depth' hstop hholds hholds' h' hr hr' heq
    cases t' with
    | null => exact ⟨rfl, List.append_cancel_left heq⟩
    | _ => cases sort_eq (node_of_all h) (node_of_all h') heq
  | str sv =>
    intro stop t' r r' depth depth' hstop hholds hholds' h' hr hr' heq
    cases t' with
    | str sv' =>
      simp only [writeAt, quoted, List.cons_append, List.append_assoc, List.nil_append] at heq
      obtain ⟨rfl, hrest⟩ := string_unique hstop hholds hholds' hr hr' (List.cons.inj heq).2
      exact ⟨rfl, hrest⟩
    | _ => cases sort_eq (node_of_all h) (node_of_all h') heq
  | bool bv =>
    intro stop t' r r' depth depth' hstop hholds hholds' h' hr hr' heq
    cases t' with
    | bool bv' =>
      cases bv <;> cases bv'
      · exact ⟨rfl, List.append_cancel_left heq⟩
      · exact absurd (List.cons.inj heq).1 (by decide)
      · exact absurd (List.cons.inj heq).1 (by decide)
      · exact ⟨rfl, List.append_cancel_left heq⟩
    | _ => cases sort_eq (node_of_all h) (node_of_all h') heq
  | array items ih =>
    intro stop t' r r' depth depth' hstop hholds hholds' h' hr hr' heq
    cases t' with
    | array items' =>
      simp only [writeAt, newline, writeDepth, List.cons_append, List.append_assoc,
        List.nil_append, Bool.false_eq_true, if_false] at heq
      obtain ⟨hnode, hitems⟩ := all_array_iff.mp h
      obtain ⟨hnode', hitems'⟩ := all_array_iff.mp h'
      obtain ⟨rfl, hrest⟩ := items_unique (fun value hv => ih value hv (hitems value hv)) hitems
        hitems' (List.all_eq_true.mp hnode) (List.all_eq_true.mp hnode') (List.cons.inj heq).2
      exact ⟨rfl, hrest⟩
    | _ => cases sort_eq (node_of_all h) (node_of_all h') heq
  | obj maps ih =>
    intro stop t' r r' depth depth' hstop hholds hholds' h' hr hr' heq
    cases t' with
    | obj maps' =>
      simp only [writeAt, newline, writeDepth, List.cons_append, List.append_assoc,
        List.nil_append, Bool.false_eq_true, if_false] at heq
      obtain ⟨hnode, hmaps⟩ := all_obj_iff.mp h
      obtain ⟨hnode', hmaps'⟩ := all_obj_iff.mp h'
      have hholds : ∀ {m : List (List UInt8 × JBaseObj Float)}, unmistakable (obj m) = true →
          ∀ e ∈ m, holdsTogether keyStop e.1 = true ∧ e.2.holds memberStop = true :=
        fun hm e he => Bool.and_eq_true_iff.mp (List.all_eq_true.mp hm e he)
      obtain ⟨rfl, hrest⟩ := members_unique (fun e he => ih e he (hmaps e he)) (hholds hnode)
        (hholds hnode') hmaps' (List.cons.inj heq).2
      exact ⟨rfl, hrest⟩
    | _ => cases sort_eq (node_of_all h) (node_of_all h') heq

/-- A string with nothing behind it may hold anything. -/
theorem holdsTogether_end (sv : List UInt8) : holdsTogether (fun _ => false) sv = true := by
  induction sv with
  | nil => rfl
  | cons c sv ih => simp [holdsTogether, ih]

theorem holds_end (t : JBaseObj Float) : t.holds (fun _ => false) = true := by
  cases t with
  | str sv => exact holdsTogether_end sv
  | _ => rfl

/-- Different trees of this kind have different texts. -/
theorem write_ne_of_ne (h : t.all unmistakable = true) (h' : t'.all unmistakable = true)
    (hne : t ≠ t') : t.write f false ≠ t'.write f false := by
  intro heq
  have hunique : Unique f t := unique_of_unmistakable h
  refine hne (hunique _ t' [] [] 0 0 separates_end (holds_end t) (holds_end t') h' rfl rfl ?_).1
  rw [List.append_nil, List.append_nil]
  exact heq

/-- `{"a",b":"c":d"}` and `{"a":["c"]}`. -/
theorem write_ne_of_ne_quoted :
    (obj [([97, 34, 44, 98], str [99, 34, 58, 100])] : JBaseObj Unit).write (fun _ => []) false ≠
      (obj [([97], array [str [99]])] : JBaseObj Unit).write (fun _ => []) false :=
  write_ne_of_ne rfl rfl nofun

/-- The text `["a","b"]` is that of an array with one string, too. -/
theorem write_mistaken : ∃ t t' : JBaseObj Unit, t.Built ∧ t'.Built ∧ t ≠ t' ∧
    t.write (fun _ => []) false = [91, 34, 97, 34, 44, 34, 98, 34, 93] ∧
    t'.write (fun _ => []) false = [91, 34, 97, 34, 44, 34, 98, 34, 93] :=
  ⟨array [str [97, 34, 44, 34, 98]], array [str [97], str [98]],
    .push .array (.str _ (by decide)),
    .push (.push .array (.str _ (by decide))) (.str _ (by decide)), nofun, rfl, rfl⟩

end JBaseObj

end LuaServer
