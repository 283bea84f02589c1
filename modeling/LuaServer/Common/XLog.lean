import LuaServer.Common.Text
import LuaServer.Reasoning.Decimal
import LuaServer.Reasoning.MachineInt
import LuaServer.Reasoning.Transition

/-!
# XLog — lines in a directory for each day

`writeFile` makes a directory when the day of the month is another one than that of the last call, and a
file when there is none yet, when the day has changed or when the file has grown too large.

A directory can be made and a file be opened.  What `fprintf` returns is part of a call.
-/

open Reasoning

namespace LuaServer

/-- `struct tm`. -/
structure Tm where
  tm_sec : Nat
  tm_min : Nat
  tm_hour : Nat
  tm_mday : Nat
  tm_mon : Nat
  tm_year : Int
  sec_le : tm_sec ≤ 60
  min_lt : tm_min < 60
  hour_lt : tm_hour < 24
  mday_pos : 0 < tm_mday
  mday_le : tm_mday ≤ 31
  mon_lt : tm_mon < 12
  year_bounds : -2 ^ 31 ≤ tm_year ∧ tm_year < 2 ^ 31

/-- The arguments of `writeFile`, the time of the call and what `fprintf` returns. -/
structure LogCall where
  tm_ : Tm
  level : Int
  filename : List UInt8
  func : List UInt8
  row : Int
  logstr : List UInt8
  printed : Int

/-- `file` is the name of the file that is open. -/
structure XLog where
  file : Option (List UInt8)
  logdir : List UInt8
  childdir : List UInt8
  currdir : List UInt8
  writeday : Nat
  maxsize : Nat
  currsize : Nat
deriving DecidableEq

/-! ## 1. Names and lines -/

namespace Tm

/-- `%d-%.2d-%.2d/`. -/
def dirname (tm_ : Tm) : List UInt8 :=
  intNumeral (toInt32 (tm_.tm_year + 1900)) ++ ascii "-" ++ numeral2 (tm_.tm_mon + 1) ++ ascii "-" ++
    numeral2 tm_.tm_mday ++ ascii "/"

/-- `%.2d.%.2d.%.2d.log`. -/
def logname (tm_ : Tm) : List UInt8 :=
  numeral2 tm_.tm_hour ++ ascii "." ++ numeral2 tm_.tm_min ++ ascii "." ++ numeral2 tm_.tm_sec ++
    ascii ".log"

/-- `%.2d:%.2d:%.2d`. -/
def clock (tm_ : Tm) : List UInt8 :=
  numeral2 tm_.tm_hour ++ ascii ":" ++ numeral2 tm_.tm_min ++ ascii ":" ++ numeral2 tm_.tm_sec

/-- `dirname` has 16 bytes, with the NUL. -/
def Fits (tm_ : Tm) : Prop := tm_.dirname.length < 16

instance (tm_ : Tm) : Decidable tm_.Fits := inferInstanceAs (Decidable (_ < _))

/-- Two times on the same day of a month are in the same month. -/
def SameMonth (a b : Tm) : Prop :=
  a.tm_mday = b.tm_mday → a.tm_year = b.tm_year ∧ a.tm_mon = b.tm_mon

instance (a b : Tm) : Decidable (SameMonth a b) := inferInstanceAs (Decidable (_ → _))

end Tm

/-- The word for the level. -/
def levelText (level : Int) : List UInt8 :=
  if level = 0 then ascii "info\t"
  else if level = 1 then ascii "warning\t"
  else if level = 2 then ascii "error\t"
  else []

def LogCall.wstr (c : LogCall) : List UInt8 :=
  c.tm_.clock ++ ascii "\t" ++ levelText c.level ++ c.filename ++ ascii "|" ++ c.func ++ ascii "|" ++
    intNumeral c.row ++ ascii "\t" ++ c.logstr ++ ascii "\n"

/-! ## 2. The log -/

namespace XLog

def construct : XLog := ⟨none, [], [], [], 0, 1073741824, 0⟩

variable (self : XLog)

def init (rootdir child : List UInt8) : XLog :=
  { self with logdir := rootdir ++ ascii "/", childdir := child ++ ascii "/" }

def setMaxsize (size : Nat) : XLog := { self with maxsize := size }

def closefile : XLog := if self.file = none then self else { self with file := none, currsize := 0 }

/-- The directory of another day; none is a name that does not fit into `dirname`. -/
def newday (tm_ : Tm) : Option XLog :=
  if tm_.Fits then
    some { self with
      writeday := tm_.tm_mday
      currdir := self.logdir ++ tm_.dirname ++ self.childdir }
  else none

/-- The file that is opened in the current directory. -/
def openfile (tm_ : Tm) : XLog :=
  { self.closefile with file := some (self.currdir ++ tm_.logname) }

/-- Directory and file before a line is written. -/
def turn (tm_ : Tm) : Option XLog :=
  let newfile := self.file = none
  if tm_.tm_mday ≠ self.writeday then (self.newday tm_).map fun self => self.openfile tm_
  else if newfile ∨ self.currsize ≥ self.maxsize then some (self.openfile tm_)
  else some self

/-- The log afterwards, and what has been written to which file. -/
def writeFile (c : LogCall) : Option (XLog × Option (List UInt8 × List UInt8)) :=
  (self.turn c.tm_).map fun self =>
    match self.file with
    | none => (self, none)
    | some file =>
      ({ self with currsize := toUint32 (self.currsize + c.printed) }, some (file, c.wstr))

def step (c : LogCall) : Option XLog := (self.writeFile c).map Prod.fst

/-- The line goes to a file in the directory of its own day. -/
def InOwnDay (c : LogCall) (_ : XLog) : Prop :=
  ∃ t file, self.writeFile c = some (t, some (file, c.wstr)) ∧
    self.logdir ++ c.tm_.dirname <+: file

end XLog

/-! ## 3. The name of a day -/

namespace Tm

variable {a b : Tm}

/-- A name ends at its only slash. -/
theorem dirname_eq (a : Tm) : ∃ name, 47 ∉ name ∧ a.dirname = name ++ [47] := by
  refine ⟨_, fun hmem => ?_, rfl⟩
  have hdash : (47 : UInt8) ∉ ascii "-" := by decide
  have hdigits : ∀ n, (47 : UInt8) ∉ numeral2 n := by
    intro n h
    exact absurd (isDigit_of_mem_numeral2 h) (by decide)
  have hyear : (47 : UInt8) ∉ intNumeral (toInt32 (a.tm_year + 1900)) := by
    intro h
    exact absurd (mem_intNumeral h) (by decide)
  simp only [List.mem_append, hdash, hdigits, hyear, or_self] at hmem

theorem dirname_of_prefix {dir rest : List UInt8} (h : dir ++ a.dirname <+: dir ++ (b.dirname ++ rest)) :
    a.dirname = b.dirname := by
  obtain ⟨name, hname, ha⟩ := dirname_eq a
  obtain ⟨name', hname', hb⟩ := dirname_eq b
  obtain ⟨behind, heq⟩ := (List.prefix_append_right_inj dir).mp h
  rw [ha, hb, List.append_assoc, List.append_assoc] at heq
  have htake := takeWhile_ne hname behind
  rw [show name ++ 47 :: behind = name' ++ 47 :: rest from heq, takeWhile_ne hname'] at htake
  rw [ha, hb, htake]

/-- The name of a day is that of one day. -/
theorem dirname_inj (h : a.dirname = b.dirname) : a.tm_year = b.tm_year ∧ a.tm_mon = b.tm_mon := by
  have hmon : ∀ t : Tm, (numeral2 (t.tm_mon + 1)).length = 2 := by
    intro t
    have := t.mon_lt
    exact length_numeral2 (by omega)
  have hday : ∀ t : Tm, (numeral2 t.tm_mday).length = 2 := by
    intro t
    have := t.mday_le
    exact length_numeral2 (by omega)
  have hslash := List.append_inj_left' h rfl
  have hmday := List.append_inj_left' hslash ((hday a).trans (hday b).symm)
  have hdash := List.append_inj_left' hmday rfl
  obtain ⟨hyear, hmonth⟩ := List.append_inj' hdash ((hmon a).trans (hmon b).symm)
  have hcount := congrArg ofNumeral hmonth
  rw [ofNumeral_numeral2, ofNumeral_numeral2] at hcount
  have hvalue := intNumeral_inj.mp (List.append_inj_left' hyear rfl)
  have ha := a.year_bounds
  have hb := b.year_bounds
  unfold toInt32 at hvalue
  omega

end Tm

/-! ## 4. Runs -/

namespace XLog

/-- The directory is that of `last`, and a file in it is open. -/
structure Opened (last : Tm) (s : XLog) : Prop where
  writeday : s.writeday = last.tm_mday
  currdir : s.currdir = s.logdir ++ last.dirname ++ s.childdir
  file : ∃ name, s.file = some (s.currdir ++ name)

variable {last : Tm} {s t : XLog} {c : LogCall} {calls : List LogCall}

theorem closefile_frame (s : XLog) : s.closefile.writeday = s.writeday ∧
    s.closefile.currdir = s.currdir ∧ s.closefile.logdir = s.logdir ∧
    s.closefile.childdir = s.childdir := by
  unfold closefile
  split <;> exact ⟨rfl, rfl, rfl, rfl⟩

theorem openfile_opened {tm_ : Tm} (hday : s.writeday = last.tm_mday)
    (hdir : s.currdir = s.logdir ++ last.dirname ++ s.childdir) : Opened last (s.openfile tm_) where
  writeday := (closefile_frame s).1.trans hday
  currdir := by
    obtain ⟨-, hcurr, hlog, hchild⟩ := closefile_frame s
    show s.closefile.currdir = s.closefile.logdir ++ last.dirname ++ s.closefile.childdir
    rw [hcurr, hlog, hchild, hdir]
  file := ⟨tm_.logname, by rw [openfile, (closefile_frame s).2.1]⟩

/-- On the same day of the month the directory stays. -/
theorem turn_of_eq (h : Opened last s) {tm_ : Tm} (heq : tm_.tm_mday = last.tm_mday) :
    ∃ t, s.turn tm_ = some t ∧ Opened last t ∧ t.logdir = s.logdir := by
  have hday : ¬ tm_.tm_mday ≠ s.writeday := fun hne => hne (heq.trans h.writeday.symm)
  rw [turn, if_neg hday]
  by_cases hnew : s.file = none ∨ s.currsize ≥ s.maxsize
  · rw [if_pos hnew]
    exact ⟨_, rfl, openfile_opened h.writeday h.currdir, (closefile_frame s).2.2.1⟩
  · rw [if_neg hnew]
    exact ⟨s, rfl, h, rfl⟩

/-- On another one there is a new directory, if its name fits. -/
theorem turn_of_ne {tm_ : Tm} (hne : tm_.tm_mday ≠ s.writeday) (hfits : tm_.Fits) :
    ∃ t, s.turn tm_ = some t ∧ Opened tm_ t ∧ t.logdir = s.logdir := by
  rw [turn, if_pos hne, newday, if_pos hfits]
  exact ⟨_, rfl, openfile_opened rfl rfl, (closefile_frame _).2.2.1⟩

theorem turn_eq_none {tm_ : Tm} (hne : tm_.tm_mday ≠ s.writeday) (hfits : ¬ tm_.Fits) :
    s.turn tm_ = none := by
  rw [turn, if_pos hne, newday, if_neg hfits]
  rfl

/-- After the turn to the directory of `last` the line is in its own one exactly if the names are the
same. -/
theorem safe_cons_iff (hturn : s.turn c.tm_ = some t) (ht : Opened last t)
    (hlog : t.logdir = s.logdir) (calls : List LogCall) :
    ∃ u, Opened last u ∧ (Safe InOwnDay step s (c :: calls) ↔
      last.dirname = c.tm_.dirname ∧ Safe InOwnDay step u calls) := by
  obtain ⟨name, hname⟩ := ht.file
  rw [ht.currdir, hlog, List.append_assoc, List.append_assoc] at hname
  have hwrite : s.writeFile c = some ({ t with currsize := toUint32 (t.currsize + c.printed) },
      some (s.logdir ++ (last.dirname ++ (t.childdir ++ name)), c.wstr)) := by
    rw [writeFile, hturn, Option.map_some]
    simp only [hname]
  have hown : ∀ u, InOwnDay s c u ↔ last.dirname = c.tm_.dirname := by
    intro u
    constructor
    · rintro ⟨t', file, hfile, hprefix⟩
      rw [hwrite] at hfile
      cases hfile
      exact (Tm.dirname_of_prefix hprefix).symm
    · intro heq
      refine ⟨_, _, hwrite, ?_⟩
      rw [heq, ← List.append_assoc]
      exact List.prefix_append _ _
  have hstep : s.step c = some { t with currsize := toUint32 (t.currsize + c.printed) } := by
    rw [step, hwrite, Option.map_some]
  refine ⟨{ t with currsize := toUint32 (t.currsize + c.printed) },
    ⟨ht.writeday, ht.currdir, ht.file⟩, ?_⟩
  constructor
  · rintro ⟨u, hu, hr, hsafe⟩
    obtain rfl := Option.some.inj (hstep.symm.trans hu)
    exact ⟨(hown _).mp hr, hsafe⟩
  · rintro ⟨heq, hsafe⟩
    exact ⟨_, hstep, (hown _).mpr heq, hsafe⟩

theorem not_safe_cons (hturn : s.turn c.tm_ = none) : ¬ Safe InOwnDay step s (c :: calls) := by
  rintro ⟨u, hu, -⟩
  rw [step, writeFile, hturn] at hu
  cases hu

/-- The calls that follow one of the time `last`. -/
theorem opened_safe_iff (hs : Opened last s) (hfits : last.Fits) :
    Safe InOwnDay step s calls ↔
      (last :: calls.map LogCall.tm_).IsChain Tm.SameMonth ∧ ∀ c ∈ calls, c.tm_.Fits := by
  induction calls generalizing s last with
  | nil => simp [Safe]
  | cons c calls ih =>
    rw [List.map_cons, List.isChain_cons_cons, List.forall_mem_cons]
    by_cases heq : c.tm_.tm_mday = last.tm_mday
    · -- the line goes to the directory of `last`
      obtain ⟨t, hturn, ht, hlog⟩ := turn_of_eq hs heq
      obtain ⟨u, hu, hiff⟩ := safe_cons_iff hturn ht hlog calls
      rw [hiff]
      have hname : last.dirname = c.tm_.dirname ↔ last.SameMonth c.tm_ := by
        refine ⟨fun h _ => Tm.dirname_inj h, fun h => ?_⟩
        obtain ⟨hyear, hmon⟩ := h heq.symm
        rw [Tm.dirname, Tm.dirname, hyear, hmon, heq]
      constructor
      · rintro ⟨hdir, hsafe⟩
        have hc : c.tm_.Fits := by rwa [Tm.Fits, ← hdir]
        have hu' : Opened c.tm_ u := ⟨hu.writeday.trans heq.symm, hdir ▸ hu.currdir, hu.file⟩
        obtain ⟨hchain, hall⟩ := (ih hu' hc).mp hsafe
        exact ⟨⟨hname.mp hdir, hchain⟩, hc, hall⟩
      · rintro ⟨⟨hsame, hchain⟩, hc, hall⟩
        have hdir := hname.mpr hsame
        have hu' : Opened c.tm_ u := ⟨hu.writeday.trans heq.symm, hdir ▸ hu.currdir, hu.file⟩
        exact ⟨hdir, (ih hu' hc).mpr ⟨hchain, hall⟩⟩
    · -- the line goes to a new directory
      have hne : c.tm_.tm_mday ≠ s.writeday := fun h => heq (h.trans hs.writeday)
      have hsame : last.SameMonth c.tm_ := fun h => absurd h.symm heq
      by_cases hc : c.tm_.Fits
      · obtain ⟨t, hturn, ht, hlog⟩ := turn_of_ne hne hc
        obtain ⟨u, hu, hiff⟩ := safe_cons_iff hturn ht hlog calls
        rw [hiff, ih hu hc]
        simp only [hsame, hc, true_and]
      · exact iff_of_false (not_safe_cons (turn_eq_none hne hc)) fun h => hc h.2.1

/-- Every line of a new log goes to the directory of its own day exactly if calls in a row on the same
day of a month are in the same month, and the name of each day fits. -/
theorem lines_in_own_day_iff (hnew : s.writeday = 0) (calls : List LogCall) :
    Safe InOwnDay step s calls ↔
      (calls.map LogCall.tm_).IsChain Tm.SameMonth ∧ ∀ c ∈ calls, c.tm_.Fits := by
  cases calls with
  | nil => simp [Safe]
  | cons c calls =>
    have hne : c.tm_.tm_mday ≠ s.writeday := by
      rw [hnew]
      exact Nat.ne_of_gt c.tm_.mday_pos
    rw [List.map_cons, List.forall_mem_cons]
    by_cases hc : c.tm_.Fits
    · obtain ⟨t, hturn, ht, hlog⟩ := turn_of_ne hne hc
      obtain ⟨u, hu, hiff⟩ := safe_cons_iff hturn ht hlog calls
      rw [hiff, opened_safe_iff hu hc]
      simp only [hc, true_and]
    · exact iff_of_false (not_safe_cons (turn_eq_none hne hc)) fun h => hc h.2.1

/-- Midday of a date. -/
def midday (year : Int) (mon mday : Nat) (h : -2 ^ 31 ≤ year ∧ year < 2 ^ 31) (hmon : mon < 12)
    (hmday : 0 < mday ∧ mday ≤ 31) : LogCall where
  tm_ := ⟨0, 0, 12, mday, mon, year, by decide, by decide, by decide, hmday.1, hmday.2, hmon, h⟩
  level := 0
  filename := ascii "main.cpp"
  func := ascii "main"
  row := 1
  logstr := ascii "start"
  printed := 34

/-- The 15th of January and the 16th of February 2024, with a new file for each line. -/
theorem lines_in_own_day_next :
    Safe InOwnDay step ((construct.init (ascii "log") (ascii "game")).setMaxsize 0)
      [midday 124 0 15 (by decide) (by decide) (by decide),
        midday 124 0 15 (by decide) (by decide) (by decide),
        midday 124 1 16 (by decide) (by decide) (by decide)] :=
  (lines_in_own_day_iff rfl _).mpr (by decide +kernel)

/-- The 15th of January and the 15th of February 2024: the second line goes to the directory of the
first. -/
theorem line_in_other_month :
    let log := construct.init (ascii "log") (ascii "game")
    let first := midday 124 0 15 (by decide) (by decide) (by decide)
    let second := midday 124 1 15 (by decide) (by decide) (by decide)
    (∃ t u, log.step first = some t ∧ t.writeFile second =
        some (u, some (ascii "log/2024-01-15/game/12.00.00.log", second.wstr))) ∧
      second.tm_.dirname = ascii "2024-02-15/" ∧ ¬ Safe InOwnDay step log [first, second] := by
  intro log first second
  have hcalls : (log.step first).bind (fun t => (t.writeFile second).map fun r => (t.logdir, r.2)) =
      some (ascii "log/", some (ascii "log/2024-01-15/game/12.00.00.log", second.wstr)) := by
    decide +kernel
  obtain ⟨t, ht, hwrite⟩ := Option.bind_eq_some_iff.mp hcalls
  obtain ⟨⟨u, line⟩, hu, hline⟩ := Option.map_eq_some_iff.mp hwrite
  obtain ⟨hlog, rfl⟩ := Prod.mk.inj hline
  refine ⟨⟨t, u, ht, hu⟩, by decide +kernel, ?_⟩
  rintro ⟨t', ht', -, -, -, ⟨v, file, hfile, hprefix⟩, -⟩
  obtain rfl : t = t' := Option.some.inj (ht.symm.trans ht')
  obtain rfl : ascii "log/2024-01-15/game/12.00.00.log" = file := by
    rw [hu] at hfile
    cases hfile
    rfl
  change t.logdir = ascii "log/" at hlog
  rw [hlog] at hprefix
  exact absurd hprefix (by decide +kernel)

end XLog

end LuaServer
