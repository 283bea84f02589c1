import LuaServer.Common.Text
import LuaServer.Reasoning.MachineInt
import LuaServer.Reasoning.Transition
import Mathlib.Data.Option.Basic

/-!
# RedisResult — reading a reply of the server

A reply is a tree.  Which of its fields have a meaning depends on its kind, and the others are zero; the
calls only ask whether it has a text.  A reply with a text is a single row, one without is as many rows
as it has elements.
-/

open Reasoning

namespace LuaServer

/-! ## 1. Replies -/

/-- What the library makes of an answer.  Behind each text there is a NUL. -/
inductive RedisReply
  | nil
  | integer (value : Int)
  | status (text : List UInt8)
  | error (text : List UInt8)
  | string (text : List UInt8)
  | array (replies : List RedisReply)

namespace RedisReply

/-- None is a null pointer. -/
def str : RedisReply → Option (List UInt8)
  | status text | error text | string text => some text
  | nil | integer _ | array _ => none

def len (self : RedisReply) : Nat := (self.str.getD []).length

def element : RedisReply → List RedisReply
  | array replies => replies
  | _ => []

end RedisReply

/-- `n` bytes from a pointer; none if it is null or leads to fewer. -/
def copied (p : Option (List UInt8)) (n : Nat) : Option (List UInt8) :=
  p.bind fun bytes => if n ≤ bytes.length then some (bytes.take n) else none

/-- A `std::string_view`.  As a `size_t` a negative length is longer than every text. -/
def stringView (p : Option (List UInt8)) (len : Int) : Option (List UInt8) :=
  if len < 0 then none else if len = 0 then some [] else copied p len.toNat

/-! ## 2. The result -/

/-- None is a null pointer. -/
structure RedisResult where
  m_reply : Option RedisReply := none
  pos : Nat := 0

namespace RedisResult

variable (self : RedisResult)

def setResult (result : Option RedisReply) : RedisResult := { self with m_reply := result }

/-- None dereferences the null pointer, as with the calls that follow. -/
def getRowCount : Option Nat :=
  self.m_reply.map fun reply => if reply.str.isSome then 1 else toUint32 reply.element.length

def getFieldsCount : Option Nat := self.getRowCount

def fetch : Option Bool := self.getRowCount.map fun count => !(self.pos ≥ count)

/-- `m_reply`, or `m_reply->element[pos]` if it has no text; none is also an index past the elements. -/
def current : Option RedisReply :=
  self.m_reply.bind fun reply => if reply.str.isSome then some reply else reply.element[self.pos]?

/-- `pos++`. -/
def next : RedisResult := { self with pos := toUint32 (self.pos + 1) }

/-- The pointer and the `len` of `getData(len)`. -/
def getDataLen : Option ((Option (List UInt8) × Int) × RedisResult) :=
  self.current.map fun reply => ((reply.str, toInt32 reply.len), self.next)

def getData : Option (Option (List UInt8) × RedisResult) :=
  self.current.map fun reply => (reply.str, self.next)

/-- `operator>>` of a type of `size` bytes; `t` are the bytes of the variable. -/
def shift (size : Nat) (t : List UInt8) : Option (List UInt8 × RedisResult) :=
  self.getFieldsCount.bind fun count =>
    if self.pos ≥ count then some (t, self)
    else self.current.bind fun reply =>
      (copied reply.str size).map fun bytes => (bytes, self.next)

/-- `operator>>` of a `std::string`. -/
def shiftString (value : List UInt8) : Option (List UInt8 × RedisResult) :=
  self.getFieldsCount.bind fun count =>
    if self.pos ≥ count then some (value, self)
    else self.current.bind fun reply => reply.str.bind fun text =>
      (cString (text ++ [0])).map fun ins => (extract ins value, self.next)

/-- What is appended to the packet, and the length that is returned. -/
def readBlob : Option ((List UInt8 × Int) × RedisResult) :=
  self.getDataLen.bind fun data =>
    (if data.1.2 > 0 then copied data.1.1 data.1.2.toNat else some []).map fun bytes =>
      ((bytes, data.1.2), data.2)

def getStream : Option (List UInt8 × RedisResult) :=
  self.getDataLen.bind fun data => (stringView data.1.1 data.1.2).map fun view => (view, data.2)

end RedisResult

/-! ## 3. Reading -/

inductive RedisRead
  | number (size : Nat) (t : List UInt8)
  | string (value : List UInt8)
  | data
  | dataLen
  | blob
  | stream

/-- A number is not longer than the text, a string has a text, and the length of what is viewed fits into
an `int`. -/
def RedisRead.Suits (reply : RedisReply) : RedisRead → Prop
  | number size _ => ∃ text ∈ reply.str, size ≤ text.length
  | string _ => reply.str ≠ none
  | data | dataLen | blob => True
  | stream => 0 ≤ toInt32 reply.len

namespace RedisResult

variable {self : RedisResult} {reply : RedisReply}

def read (self : RedisResult) : RedisRead → Option RedisResult
  | .number size t => (self.shift size t).map Prod.snd
  | .string value => (self.shiftString value).map Prod.snd
  | .data => self.getData.map Prod.snd
  | .dataLen => self.getDataLen.map Prod.snd
  | .blob => self.readBlob.map Prod.snd
  | .stream => self.getStream.map Prod.snd

/-- Where there is a row, the index of the element is one of the array. -/
theorem current_of_fetch (h : self.fetch = some true) :
    ∃ count reply, self.getFieldsCount = some count ∧ self.pos < count ∧
      self.current = some reply := by
  obtain ⟨count, hcount, hlt⟩ := Option.map_eq_some_iff.mp h
  simp only [ge_iff_le, Bool.not_eq_true', decide_eq_false_iff_not, Nat.not_le] at hlt
  obtain ⟨reply, hreply, rfl⟩ := Option.map_eq_some_iff.mp hcount
  cases hstr : reply.str.isSome with
  | true => exact ⟨_, reply, hcount, hlt, by simp [current, hreply, hstr]⟩
  | false =>
    rw [hstr] at hlt
    have hpos : self.pos < reply.element.length := by
      rw [if_neg Bool.false_ne_true] at hlt
      exact Nat.lt_of_lt_of_le hlt (toUint32_le _)
    exact ⟨_, reply.element[self.pos], hcount, by rwa [hstr], by simp [current, hreply, hstr, hpos]⟩

theorem copied_isSome_iff {p : Option (List UInt8)} {n : Nat} :
    (copied p n).isSome = true ↔ ∃ bytes ∈ p, n ≤ bytes.length := by
  cases p with
  | none => simp [copied]
  | some bytes => by_cases h : n ≤ bytes.length <;> simp [copied, h]

/-- A positive length is that of a text, and not more than it has. -/
theorem copied_len (h : 0 < toInt32 reply.len) :
    (copied reply.str (toInt32 reply.len).toNat).isSome = true := by
  rw [copied_isSome_iff]
  cases hstr : reply.str with
  | none =>
    rw [RedisReply.len, hstr] at h
    exact absurd h (by decide)
  | some text =>
    refine ⟨text, rfl, ?_⟩
    rw [RedisReply.len, hstr]
    exact toInt32_toNat_le text.length

theorem stringView_isSome_iff :
    (stringView reply.str (toInt32 reply.len)).isSome = true ↔ 0 ≤ toInt32 reply.len := by
  rw [stringView]
  split
  · exact iff_of_false Bool.false_ne_true (by omega)
  · split
    · exact iff_of_true rfl (by omega)
    · exact iff_of_true (copied_len (by omega)) (by omega)

theorem cString_nul (text : List UInt8) : (cString (text ++ [0])).isSome = true := by
  simp [cString]

/-- A read of a row comes to its end exactly if it suits the row. -/
theorem read_isSome_iff {r : RedisRead} (h : self.fetch = some true)
    (hcurrent : self.current = some reply) : (self.read r).isSome = true ↔ r.Suits reply := by
  obtain ⟨count, -, hcount, hlt, -⟩ := current_of_fetch h
  have hpos : ¬ self.pos ≥ count := Nat.not_le.mpr hlt
  cases r with
  | number size t =>
    rw [read, shift, hcount, Option.bind_some, if_neg hpos, hcurrent, Option.bind_some,
      Option.isSome_map, Option.isSome_map, copied_isSome_iff]
    rfl
  | string value =>
    rw [read, shiftString, hcount, Option.bind_some, if_neg hpos, hcurrent, Option.bind_some,
      Option.isSome_map, RedisRead.Suits]
    cases reply.str with
    | none => exact iff_of_false Bool.false_ne_true fun hne => hne rfl
    | some text =>
      rw [Option.bind_some, Option.isSome_map]
      exact iff_of_true (cString_nul text) nofun
  | data =>
    rw [read, getData, hcurrent]
    exact iff_of_true rfl trivial
  | dataLen =>
    rw [read, getDataLen, hcurrent]
    exact iff_of_true rfl trivial
  | blob =>
    rw [read, readBlob, getDataLen, hcurrent, Option.map_some, Option.bind_some, Option.isSome_map,
      Option.isSome_map]
    refine iff_of_true ?_ trivial
    split
    · next hlen => exact copied_len hlen
    · rfl
  | stream =>
    rw [read, getStream, getDataLen, hcurrent, Option.map_some, Option.bind_some, Option.isSome_map,
      Option.isSome_map, stringView_isSome_iff]
    rfl

end RedisResult

/-! ## 4. Runs -/

/-- A result, and whether the last call has been a `fetch` that returned true. -/
structure RedisRun where
  result : RedisResult
  fetched : Bool

inductive RedisCall
  | fetch
  | read (r : RedisRead)

namespace RedisRun

variable {s t : RedisRun} {c : RedisCall}

/-- The run of a result with the reply. -/
def start (reply : Option RedisReply) : RedisRun :=
  ⟨({} : RedisResult).setResult reply, false⟩

def step (s : RedisRun) : RedisCall → Option RedisRun
  | .fetch => s.result.fetch.map fun found => { s with fetched := found }
  | .read r => (s.result.read r).map fun result => ⟨result, false⟩

/-- A read follows a `fetch` that returned true. -/
def Possible (s : RedisRun) : RedisCall → Prop
  | .fetch => True
  | .read _ => s.fetched = true

/-- There is a reply, and a read suits the row that it takes. -/
def Readable (s : RedisRun) : RedisCall → Prop
  | .fetch => s.result.m_reply.isSome = true
  | .read r => ∀ reply ∈ s.result.current, r.Suits reply

/-- What `fetch` has found is still there. -/
def Fetched (s : RedisRun) : Prop := s.fetched = true → s.result.fetch = some true

theorem step_fetched (hstep : s.step c = some t) : t.Fetched := by
  cases c with
  | fetch =>
    obtain ⟨found, hfound, rfl⟩ := Option.map_eq_some_iff.mp hstep
    intro htrue
    exact hfound.trans (congrArg some htrue)
  | read r =>
    obtain ⟨result, -, rfl⟩ := Option.map_eq_some_iff.mp hstep
    exact nofun

theorem step_isSome_iff (hs : s.Fetched) (hc : s.Possible c) :
    (s.step c).isSome = true ↔ s.Readable c := by
  cases c with
  | fetch =>
    rw [step, Option.isSome_map, RedisResult.fetch, Option.isSome_map, RedisResult.getRowCount,
      Option.isSome_map]
    rfl
  | read r =>
    obtain ⟨-, reply, -, -, hcurrent⟩ := RedisResult.current_of_fetch (hs hc)
    rw [step, Option.isSome_map, RedisResult.read_isSome_iff (hs hc) hcurrent, Readable, hcurrent]
    simp only [Option.mem_some_iff, forall_eq']

/-- Whatever the reply, no null pointer is dereferenced, no index reaches the elements and no more bytes
are read than a text has, exactly if there is a reply and every read suits its row. -/
theorem reads_safe_iff (reply : Option RedisReply) {cs : List RedisCall}
    (h : Allowed Possible step (start reply) cs) :
    Safe (fun _ _ _ => True) step (start reply) cs ↔ Allowed Readable step (start reply) cs :=
  safe_iff_allowed_of_isSome (I := Fetched) (fun _ _ hs hc => step_isSome_iff hs hc)
    (fun _ _ _ _ hstep => step_fetched hstep) (fun hfetched => absurd hfetched Bool.false_ne_true) h

instance (reply : RedisReply) : (r : RedisRead) → Decidable (r.Suits reply)
  | .number _ _ => inferInstanceAs (Decidable (∃ _ ∈ _, _))
  | .string _ => decidable_of_iff (reply.str.isSome = true) Option.isSome_iff_ne_none
  | .data | .dataLen | .blob => .isTrue trivial
  | .stream => inferInstanceAs (Decidable (_ ≤ _))

instance (s : RedisRun) : (c : RedisCall) → Decidable (s.Possible c)
  | .fetch => .isTrue trivial
  | .read _ => inferInstanceAs (Decidable (_ = _))

instance (s : RedisRun) : (c : RedisCall) → Decidable (s.Readable c)
  | .fetch => inferInstanceAs (Decidable (_ = _))
  | .read _ => inferInstanceAs (Decidable (∀ _ ∈ _, _))

/-- A text, a nil and a number among the elements, and a single status. -/
theorem reads_safe_elements :
    Safe (fun _ _ _ => True) step
        (start (some (.array [.string (ascii "key"), .nil, .string [1, 0], .integer 5])))
        [.fetch, .read (.string []), .fetch, .read .stream, .fetch, .read (.number 2 []), .fetch,
          .read .blob, .fetch] ∧
      Safe (fun _ _ _ => True) step (start (some (.status (ascii "OK"))))
        [.fetch, .read .dataLen, .fetch] :=
  ⟨(reads_safe_iff _ (by decide +kernel)).mpr (by decide +kernel),
    (reads_safe_iff _ (by decide +kernel)).mpr (by decide +kernel)⟩

/-- A nil among the elements is read as a string; and there is no reply. -/
theorem reads_null :
    (∃ cs, Allowed Possible step (start (some (.array [.nil]))) cs ∧
        ¬ Safe (fun _ _ _ => True) step (start (some (.array [.nil]))) cs) ∧
      ∃ cs, Allowed Possible step (start none) cs ∧
        ¬ Safe (fun _ _ _ => True) step (start none) cs := by
  refine ⟨⟨[.fetch, .read (.string [])], by decide +kernel, ?_⟩, [.fetch], by decide +kernel, ?_⟩
  · rintro ⟨t, ht, -, u, hu, -⟩
    cases ht
    cases hu
  · rintro ⟨t, ht, -⟩
    cases ht

end RedisRun

end LuaServer
