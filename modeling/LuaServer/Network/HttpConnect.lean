import LuaServer.Common.Text
import LuaServer.Network.MessageBuffer

/-!
# HttpConnect — one request after another from the read buffer

A connection looks for the end of a head in the C string at the read pointer, moves the head to a
packet, has it parsed there and appends the body behind it.  The path and the body reach the event
handler as views into the packet, so the allocation of the vector under the packet is part of the
state: an append that exceeds the capacity moves the bytes, and a view taken before is lost.

`llhttp` and the URL parser behind it are a parameter, and so is the way in which the vector grows.
-/

open Reasoning

namespace LuaServer

/-- A pointer into a block that a vector has allocated. -/
structure Pointer where
  block : Nat
  off : Nat
deriving DecidableEq

/-- `m_readPacket`, with the capacity of its vector and the number of the block that holds it. -/
@[ext] structure ReadPacket extends BasePacket 0 where
  capacity : Nat
  block : Nat
  storage_le : storage.length ≤ capacity
deriving DecidableEq

namespace ReadPacket

/-- A new packet; the vector reserves `DEFAULT_SIZE` and comes from a pool. -/
def create (capacity : Nat) : ReadPacket where
  toBasePacket := BasePacket.construct 0 []
  capacity := max ByteBuffer.DEFAULT_SIZE capacity
  block := 0
  storage_le := by rw [BasePacket.construct, resize_length]; exact Nat.zero_le _

def zero (p : ReadPacket) : ReadPacket where
  toBasePacket := p.toBasePacket.zero
  capacity := p.capacity
  block := p.block
  storage_le := by rw [BasePacket.zero, resize_length]; exact Nat.zero_le _

def contents (p : ReadPacket) : Pointer := ⟨p.block, 0⟩

/-- The bytes of a `string_view`; none if it does not lie in what the packet holds. -/
def view (p : ReadPacket) (data : Pointer) (len : Nat) : Option (List UInt8) :=
  if data.block = p.block ∧ data.off + len ≤ p.storage.length then
    some ((p.storage.drop data.off).take len)
  else none

section
-- the capacity of a vector that needs more than it has
variable (growth : Nat → Nat → Nat)

def append (p : ReadPacket) (src : List UInt8) : ReadPacket :=
  let size := p.storage.length + src.length
  { toBasePacket := p.toBasePacket.append src
    capacity := if size ≤ p.capacity then p.capacity else max size (growth p.capacity size)
    block := if size ≤ p.capacity then p.block else p.block + 1
    storage_le := by
      have hlen := p.toByteBuffer.append_storage_length src
      show (p.toByteBuffer.append src).storage.length ≤ _
      split <;> omega }

theorem append_storage (p : ReadPacket) (src : List UInt8) (h : p.wpos = p.storage.length) :
    (p.append growth src).storage = p.storage ++ src := by
  show (p.toByteBuffer.append src).storage = _
  rw [ByteBuffer.append_storage, h, List.take_length, List.drop_length, List.append_nil]

theorem append_wpos (p : ReadPacket) (src : List UInt8) :
    (p.append growth src).wpos = p.wpos + src.length := rfl

theorem append_kept (p : ReadPacket) {src : List UInt8}
    (h : p.storage.length + src.length ≤ p.capacity) :
    (p.append growth src).capacity = p.capacity ∧ (p.append growth src).block = p.block :=
  ⟨if_pos h, if_pos h⟩

theorem append_moved (p : ReadPacket) {src : List UInt8}
    (h : p.capacity < p.storage.length + src.length) :
    (p.append growth src).capacity = max (p.storage.length + src.length)
        (growth p.capacity (p.storage.length + src.length)) ∧
      (p.append growth src).block = p.block + 1 :=
  ⟨if_neg (Nat.not_le.mpr h), if_neg (Nat.not_le.mpr h)⟩

theorem le_append_block (p : ReadPacket) (src : List UInt8) :
    p.block ≤ (p.append growth src).block := by
  rcases Nat.lt_or_ge p.capacity (p.storage.length + src.length) with h | h
  · rw [(p.append_moved growth h).2]
    exact Nat.le_succ _
  · exact (p.append_kept growth h).2.ge

theorem le_append_capacity (p : ReadPacket) (src : List UInt8) :
    p.capacity ≤ (p.append growth src).capacity := by
  rcases Nat.lt_or_ge p.capacity (p.storage.length + src.length) with h | h
  · rw [(p.append_moved growth h).1]
    exact h.le.trans (le_max_left _ _)
  · exact (p.append_kept growth h).1.ge

end

end ReadPacket

/-! ## 1. The parser -/

def HTTP_GET : UInt8 := 1
def HTTP_POST : UInt8 := 3

/-- What `ParseUrl` uses of a `http_parser_url`: the fields as offset and length. -/
structure HttpParserUrl where
  haveParam : Bool
  path : Nat × Nat
  query : Nat × Nat
deriving DecidableEq

/-- What `llhttp_execute` answers and leaves behind when a parser that has just been initialised
reads one piece of text: `on_url` is where the text has the URL for which the callback was
called. -/
structure LlhttpResult where
  ok : Bool
  method : UInt8
  content_length : UInt64
  on_url : Option Nat
  url : HttpParserUrl
deriving DecidableEq

/-- The parser reads a text; of the URL parsed before, the fields that are not set again remain. -/
abbrev Llhttp : Type := HttpParserUrl → List UInt8 → LlhttpResult

structure HttpParser where
  method : UInt8
  content_length : UInt64
  -- `ParseUrl`
  m_buff : Option Pointer
  m_url : HttpParserUrl
deriving DecidableEq

namespace HttpParser

/-- `ParseUrl::ParseUrl` and `zero()`. -/
def create : HttpParser := ⟨0, 0, none, ⟨false, (0, 0), (0, 0)⟩⟩

/-- `llhttp_init`; the URL is not part of it. -/
def zero (p : HttpParser) : HttpParser := { p with method := 0, content_length := 0 }

def parser (p : HttpParser) (llhttp : Llhttp) (buf : Pointer) (text : List UInt8) :
    Bool × HttpParser :=
  let r := llhttp p.m_url text
  (r.ok, {
    method := r.method
    content_length := r.content_length
    m_buff := match r.on_url with
      | some off => some ⟨buf.block, buf.off + off⟩
      | none => p.m_buff
    m_url := r.url })

end HttpParser

/-! ## 2. The connection -/

/-- Calls of the event handler, with the bytes under the views they get, and `this->close()`. -/
inductive HttpReaction
  | onGet (path data : Option (List UInt8))
  | onPost (path data : Option (List UInt8))
  | onOther (parser : HttpParser)
  | close
deriving DecidableEq

inductive HttpStatus
  | running
  -- `close()` has been called: no read follows
  | closed
  -- the code has read memory that is not its own
  | undefined
deriving DecidableEq

structure HttpConnect where
  m_readPacket : ReadPacket
  mParser : HttpParser
  m_content : Option Pointer
  m_residue : Int
  status : HttpStatus
  reactions : List HttpReaction
deriving DecidableEq

/-- http head end: \r\n\r\n -/
abbrev headEnd : List UInt8 := ascii "\r\n\r\n"

namespace HttpConnect

abbrev Buffer : Type := MessageBuffer MESSAGE_BUFFER_SIZE

/-- A new connection, its vector with this capacity or more. -/
def create (capacity : Nat) : HttpConnect where
  m_readPacket := ReadPacket.create capacity
  mParser := HttpParser.create
  m_content := none
  m_residue := 0
  status := .running
  reactions := []

def zero (c : HttpConnect) : HttpConnect :=
  { c with
    m_readPacket := c.m_readPacket.zero
    mParser := c.mParser.zero
    m_residue := 0
    m_content := none }

def close (c : HttpConnect) : HttpConnect :=
  { c with status := .closed, reactions := c.reactions ++ [.close] }

/-- Undefined behaviour: nothing is known of what follows. -/
def fail (c : HttpConnect) : HttpConnect := { c with status := .undefined }

def path (c : HttpConnect) : Option (List UInt8) :=
  c.mParser.m_buff.bind fun m_buff =>
    c.m_readPacket.view ⟨m_buff.block, m_buff.off + c.mParser.m_url.path.1⟩ c.mParser.m_url.path.2

def param (c : HttpConnect) : Option (List UInt8) :=
  if c.mParser.m_url.haveParam then
    c.mParser.m_buff.bind fun m_buff =>
      c.m_readPacket.view ⟨m_buff.block, m_buff.off + c.mParser.m_url.query.1⟩
        c.mParser.m_url.query.2
  else some []

def contentLen (c : HttpConnect) : Int := toInt32 c.mParser.content_length.toNat

def body (c : HttpConnect) : Option (List UInt8) :=
  c.m_content.bind fun m_content => c.m_readPacket.view m_content (toSizeT c.contentLen)

def completeReaction (c : HttpConnect) : HttpReaction :=
  if c.mParser.method = HTTP_POST then .onPost c.path c.body
  else if c.mParser.method = HTTP_GET then .onGet c.path c.param
  else .onOther c.mParser

def complete (c : HttpConnect) : HttpConnect :=
  { c with reactions := c.reactions ++ [c.completeReaction] }

section
variable (llhttp : Llhttp) (growth : Nat → Nat → Nat)

def append (c : HttpConnect) (src : List UInt8) : HttpConnect :=
  { c with m_readPacket := c.m_readPacket.append growth src }

/-- `m_content` is taken, and the head in the packet is parsed. -/
def parseHead (c : HttpConnect) : Bool × HttpConnect :=
  let text := c.m_readPacket.storage.take c.m_readPacket.wpos
  let parsed := c.mParser.parser llhttp c.m_readPacket.contents text
  (parsed.1, { c with
    mParser := parsed.2
    m_content := some ⟨c.m_readPacket.block, c.m_readPacket.wpos⟩ })

def headParsed (c : HttpConnect) (ok : Bool) : HttpConnect :=
  if ok = false then c.close
  else if c.mParser.method = HTTP_POST then { c with m_residue := c.contentLen }
  else c

/-- The end of the head has been found: `src` goes up to it. -/
def headFound (c : HttpConnect) (src : List UInt8) : HttpConnect :=
  let r := (c.append growth src).parseHead llhttp
  r.2.headParsed r.1

/-- The end of the head has not been found in `src`. -/
def headMissing (c : HttpConnect) (src : List UInt8) : HttpConnect :=
  let c := c.append growth src
  -- Head is too big
  if 0xffff ≤ c.m_readPacket.wpos then c.close else c

def bodyFound (c : HttpConnect) (src : List UInt8) : HttpConnect :=
  { c.append growth src with m_residue := c.m_residue - src.length }

def finish (c : HttpConnect) : HttpConnect := if c.m_residue = 0 then c.complete.zero else c

/-- find head end pos -/
def findHead (s : HttpConnect × Buffer) : HttpConnect × Buffer :=
  let (c, buffer) := s
  match cString buffer.getReadPointer with
  | none => (c.fail, buffer)
  | some view =>
    match find headEnd view with
    | some rpos =>
      (c.headFound llhttp growth (buffer.getReadPointer.take (rpos + 4)),
        buffer.readCompleted (rpos + 4))
    | none =>
      match buffer.readBytes buffer.getActiveSize with
      | none => (c.fail, buffer)
      | some src => (c.headMissing growth src, buffer.readCompleted buffer.getActiveSize)

/-- What the loop does once there is `m_content`. -/
def readBody (s : HttpConnect × Buffer) : HttpConnect × Buffer :=
  let (c, buffer) := s
  let rlen := toInt32 buffer.getActiveSize
  if 0 < c.m_residue then
    let rlen := if rlen < c.m_residue then rlen else c.m_residue
    match buffer.readBytes (toSizeT rlen) with
    | none => (c.fail, buffer)
    | some src => ((c.bodyFound growth src).finish, buffer.readCompleted (toSizeT rlen))
  else (c.finish, buffer)

def onMsgbufferBody (s : HttpConnect × Buffer) : HttpConnect × Buffer :=
  let s := if s.1.m_content = none then findHead llhttp growth s else s
  if s.1.status = .running ∧ s.1.m_content ≠ none then readBody growth s else s

/-- A `break` only follows a `close()`. -/
def loopCond (s : HttpConnect × Buffer) : Bool :=
  decide (0 < s.2.getActiveSize ∧ s.1.status = .running)

/-- No read reaches a connection that has been closed. -/
def onMsgbuffer : OnMsgbuffer MESSAGE_BUFFER_SIZE HttpConnect :=
  whileFuel loopCond (onMsgbufferBody llhttp growth)

end

end HttpConnect

end LuaServer
