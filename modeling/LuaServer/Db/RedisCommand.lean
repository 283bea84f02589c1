import LuaServer.Common.PacketValues
import LuaServer.Db.RedisResult
import Mathlib.Data.List.TakeDrop
import Mathlib.Data.List.TakeWhile

/-!
# RedisCommand — the parameters of a command, and what is read back

A number is a parameter of as many bytes as its type has, a text one without a NUL behind it.  The
server gets the parameters with their lengths; when it returns them as an array of texts, they are read
with `fetch` and `operator>>`, which takes the first word of a text.
-/

open Reasoning

namespace LuaServer

/-! ## 1. The command -/

structure RedisCommand where
  m_param : List (List UInt8) := []
  m_len : List Nat := []
deriving DecidableEq

namespace RedisCommand

variable (self : RedisCommand)

/-- The bytes of a range cannot be inserted if its end is in front of `p`. -/
def append (p : List UInt8) (len : Int) : Option RedisCommand :=
  if len < 0 then none
  else (copied (some p) len.toNat).map fun vec =>
    { m_param := self.m_param ++ [vec], m_len := self.m_len ++ [len.toNat] }

/-- The constructor; `cmd` is the memory from the pointer on. -/
def ofCommand (cmd : List UInt8) : Option RedisCommand :=
  (cString cmd).bind fun text => ({} : RedisCommand).append cmd (toInt32 text.length)

/-- `t` are the bytes of the value. -/
def pushValue (t : List UInt8) : Option RedisCommand := self.append t (toInt32 t.length)

def pushInt8 (value : Int8) : Option RedisCommand :=
  self.pushValue (leBytes 1 value.toBitVec.toNat)

def pushUint8 (value : UInt8) : Option RedisCommand := self.pushValue (leBytes 1 value.toNat)

def pushInt16 (value : Int16) : Option RedisCommand :=
  self.pushValue (leBytes 2 value.toBitVec.toNat)

def pushUint16 (value : UInt16) : Option RedisCommand := self.pushValue (leBytes 2 value.toNat)

def pushInt32 (value : Int32) : Option RedisCommand :=
  self.pushValue (leBytes 4 value.toBitVec.toNat)

def pushUint32 (value : UInt32) : Option RedisCommand := self.pushValue (leBytes 4 value.toNat)

def pushInt64 (value : Int64) : Option RedisCommand :=
  self.pushValue (leBytes 8 value.toBitVec.toNat)

def pushUint64 (value : UInt64) : Option RedisCommand := self.pushValue (leBytes 8 value.toNat)

def pushFloat (bits : UInt32) : Option RedisCommand := self.pushValue (leBytes 4 bits.toNat)

def pushDouble (bits : UInt64) : Option RedisCommand := self.pushValue (leBytes 8 bits.toNat)

def pushString (value : List UInt8) : Option RedisCommand :=
  self.append value (toInt32 value.length)

def pushData (sv : List UInt8) : Option RedisCommand := self.append sv (toInt32 sv.length)

def argv : List (List UInt8) := self.m_param

def argvlen : List Nat := self.m_len

/-- What the server gets: of each parameter as many bytes as its length says. -/
def arguments : List (List UInt8) := List.zipWith (fun p n => p.take n) self.argv self.argvlen

end RedisCommand

/-- A value and the call that pushes it: `pushInt8`, …, `pushString`, or `pushData`. -/
inductive RedisPush
  | value (v : PacketValue)
  | data (sv : List UInt8) (no_zero : 0 ∉ sv)

/-- The value with the type it is read as. -/
def RedisPush.typed : RedisPush → PacketValue
  | value v => v
  | data sv no_zero => .string sv no_zero

namespace RedisCommand

def push (self : RedisCommand) : RedisPush → Option RedisCommand
  | .value (.int8 value) => self.pushInt8 value
  | .value (.uint8 value) => self.pushUint8 value
  | .value (.int16 value) => self.pushInt16 value
  | .value (.uint16 value) => self.pushUint16 value
  | .value (.int32 value) => self.pushInt32 value
  | .value (.uint32 value) => self.pushUint32 value
  | .value (.int64 value) => self.pushInt64 value
  | .value (.uint64 value) => self.pushUint64 value
  | .value (.float bits) => self.pushFloat bits
  | .value (.double bits) => self.pushDouble bits
  | .value (.string value _) => self.pushString value
  | .data sv _ => self.pushData sv

def pushAll (self : RedisCommand) : List RedisPush → Option RedisCommand
  | [] => some self
  | x :: xs => (self.push x).bind fun command => command.pushAll xs

/-- The arguments behind the name of the command as an array of texts. -/
def answer (self : RedisCommand) : RedisReply := .array ((self.arguments.drop 1).map .string)

end RedisCommand

namespace RedisResult

/-- `getValue<T>`: a new variable is read into and returned.  A number is not initialized; `t` are its
bytes. -/
def getValue (t : List UInt8) (self : RedisResult) (g : Getter) :
    Option (GetterValue × RedisResult) :=
  (match g.width with
    | some size => self.shift size t
    | none => self.shiftString []).map (Prod.map g.value id)

/-- In front of each value there is a `fetch` that has to return true. -/
def getValues (t : List UInt8) (self : RedisResult) :
    List Getter → Option (List GetterValue × RedisResult)
  | [] => some ([], self)
  | g :: gs =>
    if self.fetch = some true then
      (self.getValue t g).bind fun r => (r.2.getValues t gs).map (Prod.map (r.1 :: ·) id)
    else none

end RedisResult

/-! ## 2. Parameters -/

/-- The parameter that is made of the bytes: their number is passed as an `int`. -/
def kept (bytes : List UInt8) : List UInt8 := bytes.take (toInt32 bytes.length).toNat

theorem kept_length (bytes : List UInt8) : (kept bytes).length = (toInt32 bytes.length).toNat := by
  rw [kept, List.length_take, Nat.min_eq_left (toInt32_toNat_le _)]

namespace PacketValue

def text : PacketValue → Option (List UInt8)
  | string value _ => some value
  | _ => none

/-- The bytes of a number, or the text. -/
def parameter (v : PacketValue) : List UInt8 := v.text.getD v.bytes

end PacketValue

namespace RedisCommand

variable {command pushed : RedisCommand}

theorem push_eq (self : RedisCommand) (x : RedisPush) :
    self.push x = self.append x.typed.parameter (toInt32 x.typed.parameter.length) := by
  cases x with
  | data sv no_zero => rfl
  | value v => cases v <;> rfl

theorem append_eq (self : RedisCommand) (p : List UInt8) :
    self.append p (toInt32 p.length) =
      if 0 ≤ toInt32 p.length then
        some { m_param := self.m_param ++ [kept p], m_len := self.m_len ++ [(kept p).length] }
      else none := by
  rw [append, kept_length]
  by_cases hneg : toInt32 p.length < 0
  · rw [if_pos hneg, if_neg (Int.not_le.mpr hneg)]
  · rw [if_neg hneg, if_pos (Int.not_lt.mp hneg), copied, Option.bind_some,
      if_pos (toInt32_toNat_le _)]
    rfl

/-- The parameters of a command onto which values have been pushed. -/
theorem pushAll_eq_some_iff {xs : List RedisPush} :
    command.pushAll xs = some pushed ↔
      (∀ x ∈ xs, 0 ≤ toInt32 x.typed.parameter.length) ∧
        pushed = ⟨command.m_param ++ xs.map fun x => kept x.typed.parameter,
          command.m_len ++ xs.map fun x => (kept x.typed.parameter).length⟩ := by
  induction xs generalizing command with
  | nil => simp [pushAll, eq_comm]
  | cons x xs ih =>
    rw [pushAll, push_eq, append_eq, List.forall_mem_cons]
    by_cases hx : 0 ≤ toInt32 x.typed.parameter.length
    · rw [if_pos hx, Option.bind_some, ih]
      simp only [hx, true_and, List.append_assoc, List.singleton_append, List.map_cons]
    · rw [if_neg hx]
      exact iff_of_false nofun fun h => hx h.1.1

/-- A new command has its name only. -/
theorem ofCommand_params {cmd : List UInt8} (h : ofCommand cmd = some command) :
    ∃ name, command = ⟨[name], [name.length]⟩ := by
  obtain ⟨text, -, happend⟩ := Option.bind_eq_some_iff.mp h
  rw [append] at happend
  split at happend
  · cases happend
  · obtain ⟨vec, hvec, rfl⟩ := Option.map_eq_some_iff.mp happend
    rw [copied, Option.bind_some] at hvec
    split at hvec
    · next hle =>
      obtain rfl := Option.some.inj hvec
      exact ⟨_, by rw [List.length_take, Nat.min_eq_left hle]; rfl⟩
    · cases hvec

/-- The server gets the parameters as they are kept. -/
theorem answer_pushed {cmd : List UInt8} {xs : List RedisPush} (h : ofCommand cmd = some command)
    (hpush : command.pushAll xs = some pushed) :
    pushed.answer = .array ((xs.map fun x => kept x.typed.parameter).map .string) := by
  obtain ⟨name, rfl⟩ := ofCommand_params h
  obtain ⟨-, rfl⟩ := pushAll_eq_some_iff.mp hpush
  rw [answer, arguments, argv, argvlen, List.singleton_append, List.singleton_append,
    List.zipWith_cons_cons, List.drop_succ_cons, List.drop_zero, List.zipWith_map]
  simp only [List.take_length, List.zipWith_self]

end RedisCommand

/-! ## 3. Reading one parameter -/

theorem cString_kept {text : List UInt8} (h : 0 ∉ text) :
    cString (kept text ++ [0]) = some (kept text) :=
  cString_append (fun hmem => h (List.mem_of_mem_take hmem)) []

/-- What `getValue` makes of a text. -/
def Getter.ofText (g : Getter) (text : List UInt8) : Option GetterValue :=
  (match g.width with
    | some size => copied (some text) size
    | none => (cString (text ++ [0])).map fun ins => extract ins []).map g.value

namespace PacketValue

variable {v : PacketValue}

/-- A number is as short as its type. -/
theorem number_kept {w : Nat} (hw : v.getter.width = some w) :
    v.text = none ∧ v.parameter = v.bytes ∧ toInt32 v.bytes.length = v.bytes.length := by
  have htext : v.text = none := by cases v <;> first | rfl | cases hw
  have hle : w ≤ 8 := by cases v <;> cases hw <;> decide
  refine ⟨htext, by rw [parameter, htext, Option.getD_none], ?_⟩
  rw [(number_value hw).1, toInt32_of_lt (by omega)]

theorem parameter_fits (h : ∀ text ∈ v.text, text.length < 2 ^ 31) :
    0 ≤ toInt32 v.parameter.length := by
  obtain ⟨w, hw⟩ | ⟨value, no_zero, rfl⟩ := v.number_or_string
  · obtain ⟨-, hparam, hlen⟩ := number_kept hw
    rw [hparam, hlen]
    exact Int.natCast_nonneg _
  · rw [parameter, text, Option.getD_some, toInt32_of_lt (h value rfl)]
    exact Int.natCast_nonneg _

/-- The getter of its type makes of the parameter the value, exactly if a text has been kept and is one
word. -/
theorem ofText_eq_iff (h : 0 ≤ toInt32 v.parameter.length) :
    v.getter.ofText (kept v.parameter) = some v.result ↔
      ∀ text ∈ v.text, text.length < 2 ^ 31 ∧ ∀ c ∈ text, isSpace c = false := by
  obtain ⟨w, hw⟩ | ⟨value, no_zero, rfl⟩ := v.number_or_string
  · obtain ⟨htext, hparam, hkept⟩ := number_kept hw
    obtain ⟨hlen, hvalue⟩ := number_value hw
    rw [htext, hparam, kept, hkept, Int.toNat_natCast, List.take_length, Getter.ofText, hw]
    refine iff_of_true ?_ nofun
    show (copied (some v.bytes) w).map v.getter.value = some v.result
    rw [copied, Option.bind_some, if_pos hlen.ge, ← hlen, List.take_length, Option.map_some, hvalue]
  · rw [parameter, text, Option.getD_some] at h ⊢
    have hread : (string value no_zero).getter.ofText (kept value) =
        some (.text (extract (kept value) [])) := by
      show ((cString (kept value ++ [0])).map fun ins => extract ins []).map GetterValue.text = _
      rw [cString_kept no_zero]
      rfl
    rw [hread, result, Option.some.injEq, GetterValue.text.injEq, kept, extract_take_eq_iff]
    simp only [Option.mem_some_iff, forall_eq']
    refine and_congr_left fun _ => ?_
    unfold toInt32 at h ⊢
    omega

end PacketValue

/-! ## 4. Reading the answer -/

namespace RedisResult

variable {t : List UInt8} {params : List (List UInt8)} {k : Nat}

/-- A result that has gone through `k` of the texts. -/
def atElement (params : List (List UInt8)) (k : Nat) : RedisResult :=
  ⟨some (.array (params.map .string)), k⟩

theorem getFieldsCount_atElement :
    (atElement params k).getFieldsCount = some (toUint32 params.length) := by
  rw [getFieldsCount, getRowCount, atElement, Option.map_some, RedisReply.element, List.length_map]
  rfl

theorem fetch_atElement : (atElement params k).fetch = some (decide (k < toUint32 params.length)) := by
  rw [fetch, ← getFieldsCount, getFieldsCount_atElement, Option.map_some, atElement, ← decide_not]
  simp only [ge_iff_le, Nat.not_le]

theorem getValue_atElement (hk : k < toUint32 params.length) {text : List UInt8}
    (htext : params[k]? = some text) (g : Getter) :
    (atElement params k).getValue t g =
      (g.ofText text).map fun value => (value, atElement params (k + 1)) := by
  have hcurrent : (atElement params k).current = some (.string text) := by
    rw [current, atElement, Option.bind_some]
    show (params.map RedisReply.string)[k]? = _
    rw [List.getElem?_map, htext, Option.map_some]
  have hnext : (atElement params k).next = atElement params (k + 1) := by
    have hlt := toUint32_lt params.length
    rw [next, atElement, atElement]
    congr 1
    exact toUint32_of_lt (n := k + 1) (by omega)
  have hpos : ¬ (atElement params k).pos ≥ toUint32 params.length := Nat.not_le.mpr hk
  rw [getValue, Getter.ofText]
  cases g.width with
  | some size =>
    simp only [shift, getFieldsCount_atElement, Option.bind_some, if_neg hpos, hcurrent,
      RedisReply.str, hnext, Option.map_map]
    rfl
  | none =>
    simp only [shiftString, getFieldsCount_atElement, Option.bind_some, if_neg hpos, hcurrent,
      RedisReply.str, hnext, Option.map_map]
    rfl

/-- From an element on, the values that are the texts there are read and no text is left, exactly if there
are no more texts and each gives its value. -/
theorem getValues_atElement_iff {vs : List PacketValue} (hk : k ≤ toUint32 params.length)
    (hparams : params.drop k = vs.map fun v => kept v.parameter) :
    (∃ self, (atElement params k).getValues t (vs.map PacketValue.getter) =
        some (vs.map PacketValue.result, self) ∧ self.fetch = some false) ↔
      k + vs.length = toUint32 params.length ∧
        ∀ v ∈ vs, v.getter.ofText (kept v.parameter) = some v.result := by
  induction vs generalizing k with
  | nil =>
    simp only [List.map_nil, getValues, Option.some.injEq, Prod.mk.injEq, true_and,
      exists_eq_left', fetch_atElement, decide_eq_false_iff_not, List.length_nil, Nat.add_zero,
      List.not_mem_nil, false_implies, implies_true, and_true]
    omega
  | cons v vs ih =>
    rw [List.map_cons, List.map_cons, getValues, fetch_atElement, List.length_cons,
      List.forall_mem_cons]
    by_cases hlt : k < toUint32 params.length
    · have htext : params[k]? = some (kept v.parameter) := by
        rw [← List.head?_drop, hparams]
        rfl
      have hrest : params.drop (k + 1) = vs.map fun v => kept v.parameter := by
        rw [← List.tail_drop, hparams]
        rfl
      rw [if_pos (by rw [decide_eq_true hlt]), getValue_atElement hlt htext]
      cases hread : v.getter.ofText (kept v.parameter) with
      | none => exact iff_of_false (fun ⟨_, h, _⟩ => nomatch h) fun h => nomatch h.2.1
      | some value =>
        rw [Option.map_some, Option.bind_some, Option.some.injEq]
        constructor
        · rintro ⟨self, hself, hend⟩
          obtain ⟨⟨values, last⟩, hvalues, heq⟩ := Option.map_eq_some_iff.mp hself
          obtain ⟨⟨rfl, rfl⟩, rfl⟩ : (value = v.result ∧ values = vs.map PacketValue.result) ∧
              last = self := by simpa using heq
          obtain ⟨hlen, hall⟩ := (ih hlt hrest).mp ⟨_, hvalues, hend⟩
          exact ⟨by omega, rfl, hall⟩
        · rintro ⟨hlen, rfl, hall⟩
          obtain ⟨self, hself, hend⟩ := (ih hlt hrest).mpr ⟨by omega, hall⟩
          exact ⟨self, by rw [hself]; rfl, hend⟩
    · rw [if_neg (by rw [decide_eq_false hlt]; nofun)]
      exact iff_of_false (fun ⟨_, h, _⟩ => nomatch h) (by omega)

theorem getValues_answer_iff (vs : List PacketValue) :
    (∃ self, (atElement (vs.map fun v => kept v.parameter) 0).getValues t
        (vs.map PacketValue.getter) = some (vs.map PacketValue.result, self) ∧
          self.fetch = some false) ↔
      vs.length < 2 ^ 32 ∧ ∀ v ∈ vs, v.getter.ofText (kept v.parameter) = some v.result := by
  rw [getValues_atElement_iff (Nat.zero_le _) List.drop_zero, List.length_map, Nat.zero_add]
  refine and_congr_left fun _ => ⟨fun h => ?_, fun h => (toUint32_of_lt h).symm⟩
  rw [h]
  exact toUint32_lt _

end RedisResult

namespace RedisCommand

/-- The values can be pushed, and what is read of the answer with their types are these values, and
then no row is left. -/
def RoundTrip (command : RedisCommand) (t : List UInt8) (xs : List RedisPush) : Prop :=
  ∃ pushed, command.pushAll xs = some pushed ∧
    ∃ self, (({} : RedisResult).setResult (some pushed.answer)).getValues t
        (xs.map fun x => x.typed.getter) = some (xs.map fun x => x.typed.result, self) ∧
      self.fetch = some false

/-- Values make a round trip exactly if their number fits a `uint32` and every text is one word whose
length fits an `int`. -/
theorem roundTrip_iff {cmd : List UInt8} {command : RedisCommand}
    (h : ofCommand cmd = some command) (t : List UInt8) (xs : List RedisPush) :
    command.RoundTrip t xs ↔
      xs.length < 2 ^ 32 ∧ ∀ x ∈ xs, ∀ text ∈ x.typed.text,
        text.length < 2 ^ 31 ∧ ∀ c ∈ text, isSpace c = false := by
  have hread := RedisResult.getValues_answer_iff (t := t) (xs.map RedisPush.typed)
  simp only [List.map_map, List.length_map, List.forall_mem_map, Function.comp_def] at hread
  have hanswer {pushed : RedisCommand} (hpush : command.pushAll xs = some pushed) :
      ({} : RedisResult).setResult (some pushed.answer) =
        .atElement (xs.map fun x => kept x.typed.parameter) 0 := by
    rw [answer_pushed h hpush]
    rfl
  constructor
  · rintro ⟨pushed, hpush, htrip⟩
    rw [hanswer hpush, hread] at htrip
    obtain ⟨hlen, hall⟩ := htrip
    have hfits := (pushAll_eq_some_iff.mp hpush).1
    exact ⟨hlen, fun x hx => (PacketValue.ofText_eq_iff (hfits x hx)).mp (hall x hx)⟩
  · rintro ⟨hlen, hall⟩
    have hfits (x : RedisPush) (hx : x ∈ xs) : 0 ≤ toInt32 x.typed.parameter.length :=
      PacketValue.parameter_fits fun text htext => (hall x hx text htext).1
    have hpush : command.pushAll xs = some _ := pushAll_eq_some_iff.mpr ⟨hfits, rfl⟩
    refine ⟨_, hpush, ?_⟩
    rw [hanswer hpush, hread]
    exact ⟨hlen, fun x hx => (PacketValue.ofText_eq_iff (hfits x hx)).mpr (hall x hx)⟩

/-- Three numbers and a word, and another one pushed as a view. -/
theorem roundTrip_words :
    ∃ command, ofCommand (ascii "rpush" ++ [0]) = some command ∧
      command.RoundTrip [] [.value (.int32 (-1)), .value (.string (ascii "key") (by decide)),
        .value (.int8 32), .data (ascii "v") (by decide), .value (.uint64 7)] := by
  have hcmd : ofCommand (ascii "rpush" ++ [0]) = some ⟨[ascii "rpush"], [5]⟩ := by decide +kernel
  exact ⟨_, hcmd, (roundTrip_iff hcmd _ _).mpr (by decide +kernel)⟩

/-- Of a text with a space the first word is read. -/
theorem roundTrip_space :
    ∃ command, ofCommand (ascii "rpush" ++ [0]) = some command ∧
      ¬ command.RoundTrip [] [.value (.string (ascii "a b") (by decide))] := by
  have hcmd : ofCommand (ascii "rpush" ++ [0]) = some ⟨[ascii "rpush"], [5]⟩ := by decide +kernel
  refine ⟨_, hcmd, ?_⟩
  rintro ⟨pushed, hpush, self, hself, -⟩
  obtain rfl : ⟨[ascii "rpush", ascii "a b"], [5, 3]⟩ = pushed :=
    Option.some.inj (Eq.trans (by decide +kernel) hpush)
  have hvalues : some [GetterValue.text (ascii "a")] = some [.text (ascii "a b")] :=
    Eq.trans (by decide +kernel) (congrArg (Option.map Prod.fst) hself)
  exact absurd hvalues (by decide +kernel)

end RedisCommand

end LuaServer
