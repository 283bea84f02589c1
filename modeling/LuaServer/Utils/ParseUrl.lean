import LuaServer.Network.HttpRequest
import Mathlib.Data.Finset.Insert

/-!
# ParseUrl — `http_parser_parse_url` in strict mode

One loop finds the fields by the state of each character, a second one takes the host apart.  Offsets
and lengths are words of 16 bits.
-/

namespace LuaServer

/-! ## 1. Characters -/

namespace UrlChar

def isAlpha (c : UInt8) : Bool := 97 ≤ c ||| 0x20 && c ||| 0x20 ≤ 122
def isNum (c : UInt8) : Bool := 48 ≤ c && c ≤ 57
def isAlphanum (c : UInt8) : Bool := isAlpha c || isNum c
def isHex (c : UInt8) : Bool := isNum c || (97 ≤ c ||| 0x20 && c ||| 0x20 ≤ 102)

/-- One of `-_.!~*'()`. -/
def isMark (c : UInt8) : Bool :=
  c == 45 || c == 95 || c == 46 || c == 33 || c == 126 || c == 42 || c == 39 || c == 40 || c == 41

/-- Also one of `%;:&=+$,`. -/
def isUserinfoChar (c : UInt8) : Bool :=
  isAlphanum c || isMark c || c == 37 || c == 59 || c == 58 || c == 38 || c == 61 || c == 43 ||
    c == 36 || c == 44

/-- The table `normal_url_char`: visible, and neither `#` nor `?`. -/
def isUrlChar (c : UInt8) : Bool := 33 ≤ c && c ≤ 126 && c != 35 && c != 63

def isHostChar (c : UInt8) : Bool := isAlphanum c || c == 46 || c == 45

/-- A character of a zone: also one of `%.-_~`. -/
def isZoneChar (c : UInt8) : Bool :=
  isAlphanum c || c == 37 || c == 46 || c == 45 || c == 95 || c == 126

end UrlChar

open UrlChar

/-! ## 2. The fields -/

/-- The states of `parse_url_char`. -/
inductive UrlState
  | s_dead
  | s_req_spaces_before_url
  | s_req_schema
  | s_req_schema_slash
  | s_req_schema_slash_slash
  | s_req_server_start
  | s_req_server
  | s_req_server_with_at
  | s_req_path
  | s_req_query_string_start
  | s_req_query_string
  | s_req_fragment_start
  | s_req_fragment
deriving DecidableEq

inductive UrlField
  | schema
  | host
  | port
  | path
  | query
  | fragment
  | userinfo
deriving DecidableEq

structure UrlSpan where
  off : UInt16
  len : UInt16
deriving DecidableEq

/-- A `http_parser_url`. -/
structure ParsedUrl where
  field_set : Finset UrlField
  port : UInt16
  field_data : UrlField → UrlSpan

/-- All of it is 0. -/
def http_parser_url_init : ParsedUrl := ⟨∅, 0, fun _ => ⟨0, 0⟩⟩

namespace UrlState

def serverChar (ch : UInt8) : UrlState :=
  if ch = 47 then s_req_path
  else if ch = 63 then s_req_query_string_start
  else if ch = 64 then s_req_server_with_at
  else if isUserinfoChar ch || ch == 91 || ch == 93 then s_req_server
  else s_dead

def queryChar (ch : UInt8) : UrlState :=
  if isUrlChar ch then s_req_query_string
  else if ch = 63 then s_req_query_string
  else if ch = 35 then s_req_fragment_start
  else s_dead

/-- Behind the tests for blanks. -/
def visibleChar (ch : UInt8) : UrlState → UrlState
  | s_req_spaces_before_url =>
    if ch = 47 ∨ ch = 42 then s_req_path else if isAlpha ch then s_req_schema else s_dead
  | s_req_schema =>
    if isAlpha ch then s_req_schema else if ch = 58 then s_req_schema_slash else s_dead
  | s_req_schema_slash => if ch = 47 then s_req_schema_slash_slash else s_dead
  | s_req_schema_slash_slash => if ch = 47 then s_req_server_start else s_dead
  | s_req_server_with_at => if ch = 64 then s_dead else serverChar ch
  | s_req_server_start => serverChar ch
  | s_req_server => serverChar ch
  | s_req_path =>
    if isUrlChar ch then s_req_path
    else if ch = 63 then s_req_query_string_start
    else if ch = 35 then s_req_fragment_start
    else s_dead
  | s_req_query_string_start => queryChar ch
  | s_req_query_string => queryChar ch
  | s_req_fragment_start =>
    if isUrlChar ch then s_req_fragment
    else if ch = 63 then s_req_fragment
    else if ch = 35 then s_req_fragment_start
    else s_dead
  | s_req_fragment =>
    if isUrlChar ch then s_req_fragment
    else if ch = 63 ∨ ch = 35 then s_req_fragment
    else s_dead
  | s_dead => s_dead

def parse_url_char (s : UrlState) (ch : UInt8) : UrlState :=
  if ch = 32 ∨ ch = 13 ∨ ch = 10 then s_dead
  else if ch = 9 ∨ ch = 12 then s_dead
  else visibleChar ch s

/-- What the loop does in a state: it fails, skips a delimiter, or goes on in a field. -/
inductive Turn
  | fail
  | skip
  | field (uf : UrlField)
deriving DecidableEq

def turn : UrlState → Turn
  | s_dead => .fail
  | s_req_schema_slash => .skip
  | s_req_schema_slash_slash => .skip
  | s_req_server_start => .skip
  | s_req_query_string_start => .skip
  | s_req_fragment_start => .skip
  | s_req_schema => .field .schema
  | s_req_server_with_at => .field .host
  | s_req_server => .field .host
  | s_req_path => .field .path
  | s_req_query_string => .field .query
  | s_req_fragment => .field .fragment
  -- the assertion that this does not happen
  | s_req_spaces_before_url => .fail

end UrlState

namespace ParsedUrl

def start (u : ParsedUrl) (uf : UrlField) (i : Nat) : ParsedUrl :=
  { u with
    field_set := insert uf u.field_set
    field_data := Function.update u.field_data uf ⟨UInt16.ofNat i, 1⟩ }

/-- `field_data[uf].len++` -/
def extend (u : ParsedUrl) (uf : UrlField) : ParsedUrl :=
  { u with
    field_data := Function.update u.field_data uf
      ⟨(u.field_data uf).off, (u.field_data uf).len + 1⟩ }

end ParsedUrl

/-- The variables of the loop; `none` is `UF_MAX`. -/
structure UrlScan where
  s : UrlState
  old_uf : Option UrlField
  found_at : Bool
  url : ParsedUrl

namespace UrlScan

def enter (x : UrlScan) (s : UrlState) (uf : UrlField) (i : Nat) : UrlScan where
  s := s
  old_uf := some uf
  found_at := x.found_at || s == .s_req_server_with_at
  url := if x.old_uf = some uf then x.url.extend uf else x.url.start uf i

/-- The turn for the character at `i`. -/
def scanChar (x : UrlScan) (i : Nat) (ch : UInt8) : Except ParsedUrl UrlScan :=
  let s := x.s.parse_url_char ch
  match s.turn with
  | .fail => .error x.url
  | .skip => .ok { x with s := s }
  | .field uf => .ok (x.enter s uf i)

def scanLoop (x : UrlScan) (i : Nat) : List UInt8 → Except ParsedUrl UrlScan
  | [] => .ok x
  | ch :: chs =>
    match x.scanChar i ch with
    | .error u => .error u
    | .ok x' => scanLoop x' (i + 1) chs

end UrlScan

/-! ## 3. The host -/

/-- The states of `http_parse_host_char`. -/
inductive HostState
  | s_http_host_dead
  | s_http_userinfo_start
  | s_http_userinfo
  | s_http_host_start
  | s_http_host_v6_start
  | s_http_host
  | s_http_host_v6
  | s_http_host_v6_end
  | s_http_host_v6_zone_start
  | s_http_host_v6_zone
  | s_http_host_port_start
  | s_http_host_port
deriving DecidableEq

namespace HostState

def http_parse_host_char (ch : UInt8) : HostState → HostState
  | s_http_userinfo =>
    if ch = 64 then s_http_host_start
    else if isUserinfoChar ch then s_http_userinfo else s_http_host_dead
  | s_http_userinfo_start =>
    if ch = 64 then s_http_host_start
    else if isUserinfoChar ch then s_http_userinfo else s_http_host_dead
  | s_http_host_start =>
    if ch = 91 then s_http_host_v6_start
    else if isHostChar ch then s_http_host else s_http_host_dead
  | s_http_host =>
    if isHostChar ch then s_http_host
    else if ch = 58 then s_http_host_port_start else s_http_host_dead
  | s_http_host_v6_end => if ch = 58 then s_http_host_port_start else s_http_host_dead
  | s_http_host_v6 =>
    if ch = 93 then s_http_host_v6_end
    else if isHex ch || ch == 58 || ch == 46 then s_http_host_v6
    else if ch = 37 then s_http_host_v6_zone_start else s_http_host_dead
  | s_http_host_v6_start =>
    if isHex ch || ch == 58 || ch == 46 then s_http_host_v6 else s_http_host_dead
  | s_http_host_v6_zone =>
    if ch = 93 then s_http_host_v6_end
    else if isZoneChar ch then s_http_host_v6_zone else s_http_host_dead
  | s_http_host_v6_zone_start => if isZoneChar ch then s_http_host_v6_zone else s_http_host_dead
  | s_http_host_port => if isNum ch then s_http_host_port else s_http_host_dead
  | s_http_host_port_start => if isNum ch then s_http_host_port else s_http_host_dead
  | s_http_host_dead => s_http_host_dead

/-- The states in which a host may end. -/
def isEnd : HostState → Bool
  | s_http_host => true
  | s_http_host_v6_end => true
  | s_http_host_port => true
  | _ => false

end HostState

namespace ParsedUrl

/-- `field_data[UF_HOST].off` is set, and its length goes on. -/
def moveHost (u : ParsedUrl) (i : Nat) : ParsedUrl :=
  { u with
    field_data := Function.update u.field_data .host
      ⟨UInt16.ofNat i, (u.field_data .host).len⟩ }

/-- What the loop writes when it goes from `s` to `s'` at the character at `i`. -/
def hostTurn (u : ParsedUrl) (s s' : HostState) (i : Nat) : ParsedUrl :=
  match s' with
  | .s_http_host => (if s = s' then u else u.moveHost i).extend .host
  | .s_http_host_v6 => (if s = s' then u else u.moveHost i).extend .host
  | .s_http_host_v6_zone_start => u.extend .host
  | .s_http_host_v6_zone => u.extend .host
  | .s_http_host_port => if s = s' then u.extend .port else u.start .port i
  | .s_http_userinfo => if s = s' then u.extend .userinfo else u.start .userinfo i
  | _ => u

def hostLoop (u : ParsedUrl) (s : HostState) (i : Nat) : List UInt8 →
    Except ParsedUrl (HostState × ParsedUrl)
  | [] => .ok (s, u)
  | ch :: chs =>
    let s' := s.http_parse_host_char ch
    if s' = .s_http_host_dead then .error u else hostLoop (u.hostTurn s s' i) s' (i + 1) chs

def emptyHost (u : ParsedUrl) : ParsedUrl :=
  { u with field_data := Function.update u.field_data .host ⟨(u.field_data .host).off, 0⟩ }

def http_parse_host (buf : List UInt8) (u : ParsedUrl) (found_at : Bool) :
    Except ParsedUrl ParsedUrl :=
  let span := u.field_data .host
  let s := if found_at then HostState.s_http_userinfo_start else .s_http_host_start
  match hostLoop u.emptyHost s span.off.toNat ((buf.drop span.off.toNat).take span.len.toNat) with
  | .error u => .error u
  | .ok (s, u) => if s.isEnd then .ok u else .error u

/-! ## 4. The whole function -/

/-- The value of the digits of a port, as long as it is one. -/
def portLoop (v : Nat) : List UInt8 → Option Nat
  | [] => some v
  | ch :: chs =>
    let v' := v * 10 + (ch.toNat - 48)
    if 0xffff < v' then none else portLoop v' chs

def slice (u : ParsedUrl) (buf : List UInt8) (uf : UrlField) : List UInt8 :=
  (buf.drop (u.field_data uf).off.toNat).take (u.field_data uf).len.toNat

def readPort (buf : List UInt8) (u : ParsedUrl) : Int × ParsedUrl :=
  if .port ∈ u.field_set then
    match portLoop 0 (u.slice buf .port) with
    | none => (1, u)
    | some v => (0, { u with port := UInt16.ofNat v })
  else (0, u)

/-- Behind the loop over the characters. -/
def finish (buf : List UInt8) (is_connect : Bool) (x : UrlScan) : Int × ParsedUrl :=
  if .schema ∈ x.url.field_set ∧ .host ∉ x.url.field_set then (1, x.url)
  else
    match if .host ∈ x.url.field_set then http_parse_host buf x.url x.found_at
      else .ok x.url with
    | .error u => (1, u)
    | .ok u => if is_connect ∧ u.field_set ≠ {.host, .port} then (1, u) else readPort buf u

def begin (is_connect : Bool) (u : ParsedUrl) : UrlScan where
  s := if is_connect then .s_req_server_start else .s_req_spaces_before_url
  old_uf := none
  found_at := false
  url := { u with port := 0, field_set := ∅ }

def http_parser_parse_url (buf : List UInt8) (is_connect : Bool) (u : ParsedUrl) :
    Int × ParsedUrl :=
  if buf = [] then (1, u)
  else
    match (begin is_connect u).scanLoop 0 buf with
    | .error u => (1, u)
    | .ok x => finish buf is_connect x

end ParsedUrl

end LuaServer
