import LuaServer.Reasoning.Decimal
import LuaServer.Utils.ParseUrl

/-!
# UrlFields — where the fields of a URL lie

The fields that `http_parser_parse_url` sets lie one behind the other in the buffer, none of them
empty.
-/

open Reasoning

namespace LuaServer

/-! ## 1. The order of the fields -/

/-- The character behind a field. -/
def UrlSpan.stop (span : UrlSpan) : Nat := span.off.toNat + span.len.toNat

/-- The place of a field among the others. -/
def UrlField.stage : UrlField → Nat
  | .schema => 2
  | .userinfo => 9
  | .host => 10
  | .port => 11
  | .path => 12
  | .query => 16
  | .fragment => 20

namespace UrlState

def stage : UrlState → Nat
  | s_dead => 0
  | s_req_spaces_before_url => 0
  | s_req_schema => 2
  | s_req_schema_slash => 4
  | s_req_schema_slash_slash => 6
  | s_req_server_start => 8
  | s_req_server => 10
  | s_req_server_with_at => 10
  | s_req_path => 12
  | s_req_query_string_start => 14
  | s_req_query_string => 16
  | s_req_fragment_start => 18
  | s_req_fragment => 20

theorem turn_eq_field_iff (s : UrlState) (uf : UrlField) :
    s.turn = .field uf ↔ s.stage = uf.stage := by
  cases s <;> cases uf <;> decide

/-- The loop never goes back. -/
theorem stage_le {s : UrlState} {ch : UInt8} (h : s.parse_url_char ch ≠ s_dead) :
    s.stage ≤ (s.parse_url_char ch).stage := by
  unfold parse_url_char at h ⊢
  split_ifs at h ⊢ with hblank htab
  · exact absurd rfl h
  · exact absurd rfl h
  cases s
  case s_dead => exact absurd rfl h
  all_goals
    simp only [visibleChar, serverChar, queryChar] at h ⊢
    split_ifs at h ⊢ <;> first | exact absurd rfl h | decide

theorem turn_dead : s_dead.turn = .fail := rfl

end UrlState

/-! ## 2. The loop over the characters -/

namespace ParsedUrl

variable {u : ParsedUrl} {uf uf' : UrlField} {i : Nat}

theorem extend_of_ne (h : uf' ≠ uf) : (u.extend uf).field_data uf' = u.field_data uf' :=
  Function.update_of_ne h _ _

theorem start_of_ne (h : uf' ≠ uf) : (u.start uf i).field_data uf' = u.field_data uf' :=
  Function.update_of_ne h _ _

theorem extend_self : (u.extend uf).field_data uf =
    ⟨(u.field_data uf).off, (u.field_data uf).len + 1⟩ :=
  Function.update_self _ _ _

theorem start_self : (u.start uf i).field_data uf = ⟨UInt16.ofNat i, 1⟩ :=
  Function.update_self _ _ _

theorem extend_off : ((u.extend uf).field_data uf).off = (u.field_data uf).off := by
  rw [extend_self]

theorem extend_len (h : (u.field_data uf).stop < 2 ^ 16 - 1) :
    ((u.extend uf).field_data uf).len.toNat = (u.field_data uf).len.toNat + 1 := by
  rw [UrlSpan.stop] at h
  rw [extend_self]
  show ((u.field_data uf).len + 1).toNat = _
  rw [UInt16.toNat_add]
  exact Nat.mod_eq_of_lt (by
    show (u.field_data uf).len.toNat + 1 < 2 ^ 16
    omega)

theorem start_off (h : i < 2 ^ 16) : ((u.start uf i).field_data uf).off.toNat = i := by
  rw [start_self]
  exact UInt16.toNat_ofNat_of_lt' h

theorem start_len : ((u.start uf i).field_data uf).len.toNat = 1 := by
  rw [start_self]
  rfl

theorem extend_stop (h : (u.field_data uf).stop < 2 ^ 16 - 1) :
    ((u.extend uf).field_data uf).stop = (u.field_data uf).stop + 1 := by
  rw [UrlSpan.stop, extend_len h, extend_off]
  rfl

theorem start_stop (h : i < 2 ^ 16) : ((u.start uf i).field_data uf).stop = i + 1 := by
  rw [UrlSpan.stop, start_off h, start_len]

/-- The fields lie one behind the other in the first `n` characters. -/
structure Laid (u : ParsedUrl) (n : Nat) : Prop where
  pos : ∀ uf ∈ u.field_set, 0 < (u.field_data uf).len.toNat
  stop_le : ∀ uf ∈ u.field_set, (u.field_data uf).stop ≤ n
  ordered : ∀ uf ∈ u.field_set, ∀ uf' ∈ u.field_set, uf.stage < uf'.stage →
    (u.field_data uf).stop ≤ (u.field_data uf').off.toNat

/-- The last field gets one character more. -/
theorem Laid.extend (h : u.Laid i) (hstop : (u.field_data uf).stop = i) (hi : i < 2 ^ 16 - 1)
    (hlast : ∀ uf' ∈ u.field_set, uf'.stage ≤ uf.stage) : (u.extend uf).Laid (i + 1) where
  pos := by
    intro uf' hmem
    by_cases heq : uf' = uf
    · rw [heq, extend_len (by omega)]
      exact Nat.succ_pos _
    · rw [extend_of_ne heq]
      exact h.pos uf' hmem
  stop_le := by
    intro uf' hmem
    by_cases heq : uf' = uf
    · rw [heq, extend_stop (by omega), hstop]
    · rw [extend_of_ne heq]
      exact Nat.le_succ_of_le (h.stop_le uf' hmem)
  ordered := by
    intro a ha b hb hlt
    have hne : a ≠ uf := by
      rintro rfl
      exact absurd (hlast b hb) (Nat.not_le_of_lt hlt)
    have hab := h.ordered a ha b hb hlt
    rw [extend_of_ne hne]
    by_cases heq : b = uf
    · rw [heq, extend_off, ← heq]
      exact hab
    · rw [extend_of_ne heq]
      exact hab

/-- A new field begins behind the others. -/
theorem Laid.start (h : u.Laid i) (hi : i < 2 ^ 16)
    (hlast : ∀ uf' ∈ u.field_set, uf'.stage ≤ uf.stage) : (u.start uf i).Laid (i + 1) where
  pos := by
    intro uf' hmem
    by_cases heq : uf' = uf
    · rw [heq, start_len]
      exact Nat.one_pos
    · rw [start_of_ne heq]
      exact h.pos uf' (Finset.mem_of_mem_insert_of_ne hmem heq)
  stop_le := by
    intro uf' hmem
    by_cases heq : uf' = uf
    · rw [heq, start_stop hi]
    · rw [start_of_ne heq]
      exact Nat.le_succ_of_le (h.stop_le uf' (Finset.mem_of_mem_insert_of_ne hmem heq))
  ordered := by
    intro a ha b hb hlt
    have hlast' : ∀ uf' ∈ (u.start uf i).field_set, uf'.stage ≤ uf.stage := by
      intro uf' hmem
      rcases Finset.mem_insert.mp hmem with rfl | hmem
      · exact Nat.le_refl _
      · exact hlast uf' hmem
    have hne : a ≠ uf := by
      rintro rfl
      exact absurd (hlast' b hb) (Nat.not_le_of_lt hlt)
    have ha' := Finset.mem_of_mem_insert_of_ne ha hne
    rw [start_of_ne hne]
    by_cases heq : b = uf
    · rw [heq, start_off hi]
      exact h.stop_le a ha'
    · rw [start_of_ne heq]
      exact h.ordered a ha' b (Finset.mem_of_mem_insert_of_ne hb heq) hlt

theorem Laid.mono {n m : Nat} (h : u.Laid n) (hle : n ≤ m) : u.Laid m :=
  ⟨h.pos, fun uf hmem => (h.stop_le uf hmem).trans hle, h.ordered⟩

end ParsedUrl

namespace UrlScan

variable {x x' : UrlScan} {n : Nat}

/-- What holds after `n` characters. -/
structure Inv (x : UrlScan) (n : Nat) : Prop where
  laid : x.url.Laid n
  last : ∀ uf, x.old_uf = some uf → uf ∈ x.url.field_set
  current : ∀ uf, x.s.turn = .field uf → x.old_uf = some uf ∧ (x.url.field_data uf).stop = n
  reached : ∀ uf ∈ x.url.field_set, uf.stage ≤ x.s.stage
  outer : UrlField.port ∉ x.url.field_set ∧ UrlField.userinfo ∉ x.url.field_set

theorem begin_inv (is_connect : Bool) (u : ParsedUrl) : (ParsedUrl.begin is_connect u).Inv 0 where
  laid := by
    refine ⟨?_, ?_, ?_⟩ <;> intro uf hmem <;> exact absurd hmem (Finset.notMem_empty uf)
  last := fun _ heq => nomatch heq
  current := by
    intro uf h
    cases is_connect <;> exact nomatch h
  reached := fun uf hmem => absurd hmem (Finset.notMem_empty uf)
  outer := ⟨Finset.notMem_empty _, Finset.notMem_empty _⟩

theorem Inv.enter {s : UrlState} {uf : UrlField} (h : x.Inv n) (hn : n < 2 ^ 16 - 1)
    (hle : x.s.stage ≤ s.stage) (hturn : s.turn = .field uf) : (x.enter s uf n).Inv (n + 1) := by
  have hstage : s.stage = uf.stage := (s.turn_eq_field_iff uf).mp hturn
  have hlast : ∀ uf' ∈ x.url.field_set, uf'.stage ≤ uf.stage :=
    fun uf' hmem => hstage ▸ (h.reached uf' hmem).trans hle
  have hin : uf ≠ .port ∧ uf ≠ .userinfo := by
    constructor <;> rintro rfl <;> cases s <;> exact absurd hstage (by decide)
  have honly : ∀ uf', s.turn = .field uf' → uf' = uf := by
    intro uf' h'
    rw [hturn] at h'
    exact (UrlState.Turn.field.inj h').symm
  -- the field of the state goes on, or a later one begins
  by_cases hold : x.old_uf = some uf
  · have hreached := h.reached uf (h.last uf hold)
    have hstop : (x.url.field_data uf).stop = n :=
      (h.current uf ((x.s.turn_eq_field_iff uf).mpr (by omega))).2
    have hurl : (x.enter s uf n).url = x.url.extend uf := if_pos hold
    refine ⟨hurl ▸ h.laid.extend hstop hn hlast, ?_, ?_, ?_, hurl ▸ h.outer⟩
    · rintro uf' heq
      rw [hurl]
      exact Option.some.inj heq ▸ h.last uf hold
    · intro uf' h'
      rw [honly uf' h', hurl, ParsedUrl.extend_stop (by omega), hstop]
      exact ⟨rfl, rfl⟩
    · intro uf' hmem
      rw [hurl] at hmem
      exact (h.reached uf' hmem).trans hle
  · have hurl : (x.enter s uf n).url = x.url.start uf n := if_neg hold
    refine ⟨hurl ▸ h.laid.start (by omega) hlast, ?_, ?_, ?_, ?_⟩
    · rintro uf' heq
      rw [hurl]
      exact Option.some.inj heq ▸ Finset.mem_insert_self _ _
    · intro uf' h'
      rw [honly uf' h', hurl, ParsedUrl.start_stop (by omega)]
      exact ⟨rfl, rfl⟩
    · intro uf' hmem
      rw [hurl] at hmem
      rcases Finset.mem_insert.mp hmem with rfl | hmem
      · exact hstage.symm.le
      · exact (h.reached uf' hmem).trans hle
    · rw [hurl]
      refine ⟨fun hmem => ?_, fun hmem => ?_⟩
      · exact h.outer.1 (Finset.mem_of_mem_insert_of_ne hmem hin.1.symm)
      · exact h.outer.2 (Finset.mem_of_mem_insert_of_ne hmem hin.2.symm)

theorem Inv.scanChar {ch : UInt8} (h : x.Inv n) (hn : n < 2 ^ 16 - 1)
    (hscan : x.scanChar n ch = .ok x') : x'.Inv (n + 1) := by
  rw [UrlScan.scanChar] at hscan
  have hle : (x.s.parse_url_char ch).turn ≠ .fail → x.s.stage ≤ (x.s.parse_url_char ch).stage := by
    intro hfail
    refine UrlState.stage_le fun hdead => hfail ?_
    rw [hdead, UrlState.turn_dead]
  split at hscan
  · exact nomatch hscan
  · rename_i hturn
    obtain rfl := Except.ok.inj hscan
    have hle' := hle (by rw [hturn]; decide)
    refine ⟨h.laid.mono (Nat.le_succ n), h.last, ?_, fun uf hmem => (h.reached uf hmem).trans hle',
      h.outer⟩
    intro uf h'
    rw [hturn] at h'
    exact nomatch h'
  · rename_i uf hturn
    obtain rfl := Except.ok.inj hscan
    exact h.enter hn (hle (by rw [hturn]; exact UrlState.Turn.noConfusion)) hturn

theorem Inv.scanLoop {chs : List UInt8} (h : x.Inv n) (hn : n + chs.length < 2 ^ 16)
    (hscan : x.scanLoop n chs = .ok x') : x'.Inv (n + chs.length) := by
  induction chs generalizing x n with
  | nil =>
    obtain rfl := Except.ok.inj hscan
    exact h
  | cons ch chs ih =>
    rw [List.length_cons] at hn ⊢
    rw [UrlScan.scanLoop] at hscan
    split at hscan
    · exact nomatch hscan
    · rename_i y hy
      have hrun := ih (h.scanChar (by omega) hy) (by omega) hscan
      rwa [Nat.add_right_comm] at hrun

end UrlScan

/-! ## 3. The loop over the host -/

namespace HostState

/-- Nothing of the host has been read. -/
def beforeHost : HostState → Bool
  | s_http_userinfo_start => true
  | s_http_userinfo => true
  | s_http_host_start => true
  | s_http_host_v6_start => true
  | _ => false

/-- The last character belongs to the host. -/
def inHost : HostState → Bool
  | s_http_host => true
  | s_http_host_v6 => true
  | s_http_host_v6_zone_start => true
  | s_http_host_v6_zone => true
  | _ => false

theorem of_inHost {s : HostState} (h : s.inHost = true) :
    s.beforeHost = false ∧ s ≠ s_http_host_port ∧ s ≠ s_http_userinfo := by
  cases s <;> first | exact absurd h (by decide) | decide

theorem of_isEnd {s : HostState} (h : s.isEnd = true) : s.beforeHost = false := by
  cases s <;> first | exact absurd h (by decide) | rfl

theorem ne_port_of_beforeHost {s : HostState} (h : s.beforeHost = true) :
    s ≠ s_http_host_port := by
  rintro rfl
  exact absurd h (by decide)

end HostState

namespace ParsedUrl

variable {u₀ u : ParsedUrl} {s s' : HostState} {lo i : Nat}

theorem moveHost_self :
    (u.moveHost i).field_data .host = ⟨UInt16.ofNat i, (u.field_data .host).len⟩ := by
  show Function.update u.field_data .host _ .host = _
  exact Function.update_self _ _ _

theorem emptyHost_self : u.emptyHost.field_data .host = ⟨(u.field_data .host).off, 0⟩ := by
  show Function.update u.field_data .host _ .host = _
  exact Function.update_self _ _ _

theorem emptyHost_of_ne {uf : UrlField} (h : uf ≠ .host) :
    u.emptyHost.field_data uf = u.field_data uf :=
  Function.update_of_ne h _ _

/-- What holds in the host at the character at `i`; the host began at `lo`. -/
structure HostInv (u₀ u : ParsedUrl) (s : HostState) (lo i : Nat) : Prop where
  others : ∀ uf, uf ≠ .host → uf ≠ .port → uf ≠ .userinfo →
    (uf ∈ u.field_set ↔ uf ∈ u₀.field_set) ∧ u.field_data uf = u₀.field_data uf
  mem : .host ∈ u.field_set
  le_off : lo ≤ (u.field_data .host).off.toNat
  stop_le : (u.field_data .host).stop ≤ i
  empty : s.beforeHost = true → (u.field_data .host).len = 0
  pos : s.beforeHost = false → 0 < (u.field_data .host).len.toNat
  running : s.inHost = true → (u.field_data .host).stop = i
  port_mem : .port ∈ u.field_set → s = .s_http_host_port
  port : s = .s_http_host_port → .port ∈ u.field_set ∧ 0 < (u.field_data .port).len.toNat ∧
    (u.field_data .host).stop ≤ (u.field_data .port).off.toNat ∧ (u.field_data .port).stop = i
  userinfo : .userinfo ∈ u.field_set → lo ≤ (u.field_data .userinfo).off.toNat ∧
    0 < (u.field_data .userinfo).len.toNat ∧ (u.field_data .userinfo).stop ≤ i ∧
    (s.beforeHost = false → (u.field_data .userinfo).stop ≤ (u.field_data .host).off.toNat)
  reading : s = .s_http_userinfo →
    .userinfo ∈ u.field_set ∧ (u.field_data .userinfo).stop = i

/-- A delimiter. -/
theorem HostInv.skip (h : HostInv u₀ u s lo i) (hbefore : s'.beforeHost = s.beforeHost)
    (hin : s'.inHost = false) (hport : s ≠ .s_http_host_port ∧ s' ≠ .s_http_host_port)
    (hreading : s' ≠ .s_http_userinfo) : HostInv u₀ u s' lo (i + 1) where
  others := h.others
  mem := h.mem
  le_off := h.le_off
  stop_le := Nat.le_succ_of_le h.stop_le
  empty := fun hs => h.empty (hbefore ▸ hs)
  pos := fun hs => h.pos (hbefore ▸ hs)
  running := fun hs => absurd (hs.symm.trans hin) (by decide)
  port_mem := fun hmem => absurd (h.port_mem hmem) hport.1
  port := fun heq => absurd heq hport.2
  userinfo := by
    intro hmem
    obtain ⟨hlo, hpos, hstop, hoff⟩ := h.userinfo hmem
    exact ⟨hlo, hpos, Nat.le_succ_of_le hstop, fun hs => hoff (hbefore ▸ hs)⟩
  reading := fun heq => absurd heq hreading

/-- The first character of the host. -/
theorem HostInv.begins (h : HostInv u₀ u s lo i) (hs : s.beforeHost = true)
    (hs' : s'.inHost = true) (hlo : lo ≤ i) (hi : i < 2 ^ 16 - 1) :
    HostInv u₀ ((u.moveHost i).extend .host) s' lo (i + 1) := by
  obtain ⟨hbefore, hport, hreading⟩ := HostState.of_inHost hs'
  have hself : ((u.moveHost i).extend .host).field_data .host = ⟨UInt16.ofNat i, 1⟩ := by
    rw [extend_self, moveHost_self, h.empty hs]
    rfl
  have hne : ∀ uf, uf ≠ .host → ((u.moveHost i).extend .host).field_data uf = u.field_data uf :=
    fun uf huf => (extend_of_ne huf).trans (Function.update_of_ne huf _ _)
  have hoff : (UInt16.ofNat i).toNat = i :=
    UInt16.toNat_ofNat_of_lt' (Nat.lt_of_lt_of_le hi (by decide))
  have hone : (1 : UInt16).toNat = 1 := rfl
  refine ⟨fun uf h₁ h₂ h₃ => ?_, h.mem, ?_, ?_, ?_, ?_, ?_, ?_, fun heq => absurd heq hport, ?_,
    fun heq => absurd heq hreading⟩
  · rw [hne uf h₁]
    exact h.others uf h₁ h₂ h₃
  · rw [hself, hoff]
    exact hlo
  · rw [hself, UrlSpan.stop, hoff, hone]
  · exact fun hb => absurd (hbefore.symm.trans hb) (by decide)
  · intro _
    rw [hself, hone]
    exact Nat.one_pos
  · intro _
    rw [hself, UrlSpan.stop, hoff, hone]
  · exact fun hmem => absurd (h.port_mem hmem) (HostState.ne_port_of_beforeHost hs)
  · intro hmem
    obtain ⟨hle, hpos, hstop, -⟩ := h.userinfo hmem
    rw [hne .userinfo (by decide), hself]
    exact ⟨hle, hpos, Nat.le_succ_of_le hstop, fun _ => hoff.symm ▸ hstop⟩

/-- A further character of the host. -/
theorem HostInv.goes (h : HostInv u₀ u s lo i) (hs : s.inHost = true) (hs' : s'.inHost = true)
    (hi : i < 2 ^ 16 - 1) : HostInv u₀ (u.extend .host) s' lo (i + 1) := by
  obtain ⟨hbefore, hport, -⟩ := HostState.of_inHost hs
  obtain ⟨hbefore', hport', hreading'⟩ := HostState.of_inHost hs'
  have hstop := h.running hs
  refine ⟨fun uf h₁ h₂ h₃ => ?_, h.mem, ?_, ?_, ?_, ?_, ?_, ?_, fun heq => absurd heq hport', ?_,
    fun heq => absurd heq hreading'⟩
  · rw [extend_of_ne h₁]
    exact h.others uf h₁ h₂ h₃
  · rw [extend_off]
    exact h.le_off
  · rw [extend_stop (by omega), hstop]
  · exact fun hb => absurd (hbefore'.symm.trans hb) (by decide)
  · intro _
    rw [extend_len (by omega)]
    exact Nat.succ_pos _
  · intro _
    rw [extend_stop (by omega), hstop]
  · exact fun hmem => absurd (h.port_mem hmem) hport
  · intro hmem
    obtain ⟨hle, hpos, hui, hoff⟩ := h.userinfo hmem
    rw [extend_of_ne (by decide), extend_off]
    exact ⟨hle, hpos, Nat.le_succ_of_le hui, fun _ => hoff hbefore⟩

/-- The first digit of the port. -/
theorem HostInv.portBegins (h : HostInv u₀ u s lo i) (hbefore : s.beforeHost = false)
    (hi : i < 2 ^ 16 - 1) :
    HostInv u₀ (u.start .port i) .s_http_host_port lo (i + 1) := by
  have hi' : i < 2 ^ 16 := Nat.lt_of_lt_of_le hi (by decide)
  have hhost : (u.start .port i).field_data .host = u.field_data .host := start_of_ne (by decide)
  refine ⟨fun uf h₁ h₂ h₃ => ?_, Finset.mem_insert_of_mem h.mem, hhost ▸ h.le_off,
    hhost ▸ Nat.le_succ_of_le h.stop_le, fun hb => absurd hb (by decide), fun _ => hhost ▸ h.pos hbefore,
    fun hb => absurd hb (by decide), fun _ => rfl, fun _ => ?_, fun hmem => ?_,
    fun heq => absurd heq (by decide)⟩
  · rw [start_of_ne h₂]
    refine ⟨?_, (h.others uf h₁ h₂ h₃).2⟩
    rw [← (h.others uf h₁ h₂ h₃).1]
    exact ⟨fun hmem => Finset.mem_of_mem_insert_of_ne hmem h₂, fun hmem => Finset.mem_insert_of_mem hmem⟩
  · rw [hhost, start_len, start_off hi', start_stop hi']
    exact ⟨Finset.mem_insert_self _ _, Nat.one_pos, h.stop_le, rfl⟩
  · obtain ⟨hle, hpos, hui, hoff⟩ :=
      h.userinfo (Finset.mem_of_mem_insert_of_ne hmem (by decide))
    rw [hhost, start_of_ne (by decide)]
    exact ⟨hle, hpos, Nat.le_succ_of_le hui, fun _ => hoff hbefore⟩

/-- A further digit. -/
theorem HostInv.portGoes (h : HostInv u₀ u .s_http_host_port lo i) (hi : i < 2 ^ 16 - 1) :
    HostInv u₀ (u.extend .port) .s_http_host_port lo (i + 1) := by
  obtain ⟨hmem, hpos, hoff, hstop⟩ := h.port rfl
  have hhost : (u.extend .port).field_data .host = u.field_data .host := extend_of_ne (by decide)
  refine ⟨fun uf h₁ h₂ h₃ => ?_, h.mem, hhost ▸ h.le_off, hhost ▸ Nat.le_succ_of_le h.stop_le,
    fun hb => absurd hb (by decide), fun _ => hhost ▸ h.pos rfl, fun hb => absurd hb (by decide),
    fun _ => rfl, fun _ => ?_, fun hmem => ?_, fun heq => absurd heq (by decide)⟩
  · rw [extend_of_ne h₂]
    exact h.others uf h₁ h₂ h₃
  · rw [hhost, extend_len (by omega), extend_off, extend_stop (by omega), hstop]
    exact ⟨hmem, Nat.succ_pos _, hoff, rfl⟩
  · obtain ⟨hle, hpos, hui, hoff⟩ := h.userinfo hmem
    rw [hhost, extend_of_ne (by decide)]
    exact ⟨hle, hpos, Nat.le_succ_of_le hui, fun _ => hoff rfl⟩

/-- The first character of the user information. -/
theorem HostInv.userinfoBegins (h : HostInv u₀ u .s_http_userinfo_start lo i) (hlo : lo ≤ i)
    (hi : i < 2 ^ 16 - 1) : HostInv u₀ (u.start .userinfo i) .s_http_userinfo lo (i + 1) := by
  have hi' : i < 2 ^ 16 := Nat.lt_of_lt_of_le hi (by decide)
  have hhost : (u.start .userinfo i).field_data .host = u.field_data .host :=
    start_of_ne (by decide)
  refine ⟨fun uf h₁ h₂ h₃ => ?_, Finset.mem_insert_of_mem h.mem, hhost ▸ h.le_off,
    hhost ▸ Nat.le_succ_of_le h.stop_le, fun _ => hhost ▸ h.empty rfl,
    fun hb => absurd hb (by decide), fun hb => absurd hb (by decide), fun hmem => ?_,
    fun heq => absurd heq (by decide), fun _ => ?_, fun _ => ?_⟩
  · rw [start_of_ne h₃]
    refine ⟨?_, (h.others uf h₁ h₂ h₃).2⟩
    rw [← (h.others uf h₁ h₂ h₃).1]
    exact ⟨fun hmem => Finset.mem_of_mem_insert_of_ne hmem h₃, fun hmem => Finset.mem_insert_of_mem hmem⟩
  · exact absurd (h.port_mem (Finset.mem_of_mem_insert_of_ne hmem (by decide))) (by decide)
  · rw [start_off hi', start_len, start_stop hi']
    exact ⟨hlo, Nat.one_pos, Nat.le_refl _, fun hb => absurd hb (by decide)⟩
  · rw [start_stop hi']
    exact ⟨Finset.mem_insert_self _ _, rfl⟩

theorem HostInv.userinfoGoes (h : HostInv u₀ u .s_http_userinfo lo i) (hi : i < 2 ^ 16 - 1) :
    HostInv u₀ (u.extend .userinfo) .s_http_userinfo lo (i + 1) := by
  obtain ⟨hmem, hstop⟩ := h.reading rfl
  have hhost : (u.extend .userinfo).field_data .host = u.field_data .host :=
    extend_of_ne (by decide)
  refine ⟨fun uf h₁ h₂ h₃ => ?_, h.mem, hhost ▸ h.le_off, hhost ▸ Nat.le_succ_of_le h.stop_le,
    fun _ => hhost ▸ h.empty rfl, fun hb => absurd hb (by decide),
    fun hb => absurd hb (by decide), fun hmem => absurd (h.port_mem hmem) (by decide),
    fun heq => absurd heq (by decide), fun _ => ?_, fun _ => ?_⟩
  · rw [extend_of_ne h₃]
    exact h.others uf h₁ h₂ h₃
  · rw [extend_off, extend_len (by omega), extend_stop (by omega), hstop]
    exact ⟨(h.userinfo hmem).1, Nat.succ_pos _, Nat.le_refl _, fun hb => absurd hb (by decide)⟩
  · rw [extend_stop (by omega), hstop]
    exact ⟨hmem, rfl⟩

theorem HostInv.turn {ch : UInt8} (h : HostInv u₀ u s lo i) (hlo : lo ≤ i) (hi : i < 2 ^ 16 - 1)
    (hgoes : s.http_parse_host_char ch ≠ .s_http_host_dead) :
    HostInv u₀ (u.hostTurn s (s.http_parse_host_char ch) i) (s.http_parse_host_char ch) lo
      (i + 1) := by
  cases s with
  | s_http_host_dead => exact absurd rfl hgoes
  | s_http_userinfo_start =>
    simp only [HostState.http_parse_host_char] at hgoes ⊢
    split_ifs at hgoes ⊢
    · exact h.skip rfl rfl (by decide) (by decide)
    · exact h.userinfoBegins hlo hi
    · exact absurd rfl hgoes
  | s_http_userinfo =>
    simp only [HostState.http_parse_host_char] at hgoes ⊢
    split_ifs at hgoes ⊢
    · exact h.skip rfl rfl (by decide) (by decide)
    · exact h.userinfoGoes hi
    · exact absurd rfl hgoes
  | s_http_host_start =>
    simp only [HostState.http_parse_host_char] at hgoes ⊢
    split_ifs at hgoes ⊢
    · exact h.skip rfl rfl (by decide) (by decide)
    · exact h.begins rfl rfl hlo hi
    · exact absurd rfl hgoes
  | s_http_host_v6_start =>
    simp only [HostState.http_parse_host_char] at hgoes ⊢
    split_ifs at hgoes ⊢
    · exact h.begins rfl rfl hlo hi
    · exact absurd rfl hgoes
  | s_http_host =>
    simp only [HostState.http_parse_host_char] at hgoes ⊢
    split_ifs at hgoes ⊢
    · exact h.goes rfl rfl hi
    · exact h.skip rfl rfl (by decide) (by decide)
    · exact absurd rfl hgoes
  | s_http_host_v6 =>
    simp only [HostState.http_parse_host_char] at hgoes ⊢
    split_ifs at hgoes ⊢
    · exact h.skip rfl rfl (by decide) (by decide)
    · exact h.goes rfl rfl hi
    · exact h.goes rfl rfl hi
    · exact absurd rfl hgoes
  | s_http_host_v6_end =>
    simp only [HostState.http_parse_host_char] at hgoes ⊢
    split_ifs at hgoes ⊢
    · exact h.skip rfl rfl (by decide) (by decide)
    · exact absurd rfl hgoes
  | s_http_host_v6_zone_start =>
    simp only [HostState.http_parse_host_char] at hgoes ⊢
    split_ifs at hgoes ⊢
    · exact h.goes rfl rfl hi
    · exact absurd rfl hgoes
  | s_http_host_v6_zone =>
    simp only [HostState.http_parse_host_char] at hgoes ⊢
    split_ifs at hgoes ⊢
    · exact h.skip rfl rfl (by decide) (by decide)
    · exact h.goes rfl rfl hi
    · exact absurd rfl hgoes
  | s_http_host_port_start =>
    simp only [HostState.http_parse_host_char] at hgoes ⊢
    split_ifs at hgoes ⊢
    · exact h.portBegins rfl hi
    · exact absurd rfl hgoes
  | s_http_host_port =>
    simp only [HostState.http_parse_host_char] at hgoes ⊢
    split_ifs at hgoes ⊢
    · exact h.portGoes hi
    · exact absurd rfl hgoes

theorem HostInv.hostLoop {chs : List UInt8} {r : HostState × ParsedUrl}
    (h : HostInv u₀ u s lo i) (hlo : lo ≤ i) (hi : i + chs.length < 2 ^ 16)
    (hloop : u.hostLoop s i chs = .ok r) : HostInv u₀ r.2 r.1 lo (i + chs.length) := by
  induction chs generalizing u s i with
  | nil =>
    obtain rfl := Except.ok.inj hloop
    exact h
  | cons ch chs ih =>
    rw [List.length_cons] at hi ⊢
    rw [ParsedUrl.hostLoop] at hloop
    split at hloop
    · exact nomatch hloop
    · rename_i hgoes
      have hrun := ih (h.turn hlo (by omega) hgoes) (by omega) (by omega) hloop
      rwa [Nat.add_right_comm] at hrun

theorem emptyHost_inv (hmem : .host ∈ u.field_set)
    (houter : UrlField.port ∉ u.field_set ∧ UrlField.userinfo ∉ u.field_set) (found_at : Bool) :
    HostInv u u.emptyHost (if found_at then .s_http_userinfo_start else .s_http_host_start)
      (u.field_data .host).off.toNat (u.field_data .host).off.toNat := by
  have hstop : (u.emptyHost.field_data .host).stop = (u.field_data .host).off.toNat := by
    rw [emptyHost_self]
    rfl
  have hs : ∀ s, s = (if found_at then HostState.s_http_userinfo_start else .s_http_host_start) →
      s.beforeHost = true ∧ s.inHost = false ∧ s ≠ .s_http_host_port ∧ s ≠ .s_http_userinfo := by
    rintro s rfl
    cases found_at <;> decide
  obtain ⟨hbefore, hin, hport, hreading⟩ := hs _ rfl
  refine ⟨fun uf h₁ _ _ => ⟨Iff.rfl, emptyHost_of_ne h₁⟩, hmem, ?_, hstop.le, fun _ => ?_,
    fun hb => absurd (hb.symm.trans hbefore) (by decide), fun _ => hstop,
    fun hport' => absurd hport' houter.1, fun heq => absurd heq hport,
    fun hui => absurd hui houter.2, fun heq => absurd heq hreading⟩
  · rw [emptyHost_self]
  · rw [emptyHost_self]

/-- A field inside the host. -/
theorem HostInv.inside (h : HostInv u₀ u s lo i) (hend : s.beforeHost = false) :
    ∀ uf, uf = .host ∨ uf = .port ∨ uf = .userinfo → uf ∈ u.field_set →
      lo ≤ (u.field_data uf).off.toNat ∧ 0 < (u.field_data uf).len.toNat ∧
        (u.field_data uf).stop ≤ i := by
  rintro uf (rfl | rfl | rfl) hmem
  · exact ⟨h.le_off, h.pos hend, h.stop_le⟩
  · obtain ⟨-, hpos, hoff, hstop⟩ := h.port (h.port_mem hmem)
    have hle := h.le_off
    rw [UrlSpan.stop] at hoff
    exact ⟨by omega, hpos, hstop.le⟩
  · obtain ⟨hle, hpos, hstop, -⟩ := h.userinfo hmem
    exact ⟨hle, hpos, hstop⟩

/-- The fields inside the host take its place among the others. -/
theorem HostInv.laid {n : Nat} (h : HostInv u₀ u s lo i) (hend : s.beforeHost = false)
    (hlaid : u₀.Laid n) (hmem : .host ∈ u₀.field_set)
    (hlo : lo = (u₀.field_data .host).off.toNat) (hi : i = (u₀.field_data .host).stop) :
    u.Laid n := by
  have hinside := h.inside hend
  have hn : i ≤ n := hi ▸ hlaid.stop_le _ hmem
  have hcases : ∀ uf : UrlField, (uf = .host ∨ uf = .port ∨ uf = .userinfo) ∨
      uf ≠ .host ∧ uf ≠ .port ∧ uf ≠ .userinfo := by
    intro uf
    cases uf <;> decide
  refine ⟨?_, ?_, ?_⟩
  · intro uf huf
    rcases hcases uf with hin | ⟨h₁, h₂, h₃⟩
    · exact (hinside uf hin huf).2.1
    · obtain ⟨hiff, hdata⟩ := h.others uf h₁ h₂ h₃
      exact hdata ▸ hlaid.pos uf (hiff.mp huf)
  · intro uf huf
    rcases hcases uf with hin | ⟨h₁, h₂, h₃⟩
    · exact (hinside uf hin huf).2.2.trans hn
    · obtain ⟨hiff, hdata⟩ := h.others uf h₁ h₂ h₃
      exact hdata ▸ hlaid.stop_le uf (hiff.mp huf)
  · intro a ha b hb hlt
    rcases hcases a with hina | ⟨ha₁, ha₂, ha₃⟩ <;> rcases hcases b with hinb | ⟨hb₁, hb₂, hb₃⟩
    · -- user information, host, port
      rcases hina with rfl | rfl | rfl <;> rcases hinb with rfl | rfl | rfl <;>
        first | exact absurd hlt (by decide) | skip
      · exact (h.port (h.port_mem hb)).2.2.1
      · exact (h.userinfo ha).2.2.2 hend
      · have hoff := (h.userinfo ha).2.2.2 hend
        have hport := (h.port (h.port_mem hb)).2.2.1
        rw [UrlSpan.stop] at hport
        omega
    · -- what stands behind the whole host stands behind its parts
      have hhost : UrlField.host.stage < b.stage := by
        rcases hina with rfl | rfl | rfl <;> cases b <;>
          first | decide | exact absurd rfl hb₁ | exact absurd rfl hb₂ | exact absurd hlt (by decide)
      obtain ⟨hiff, hdata⟩ := h.others b hb₁ hb₂ hb₃
      have hbehind := hlaid.ordered _ hmem b (hiff.mp hb) hhost
      have hin := (hinside a hina ha).2.2
      rw [hdata]
      omega
    · -- the same for what stands in front of it
      have hhost : a.stage < UrlField.host.stage := by
        rcases hinb with rfl | rfl | rfl <;> cases a <;>
          first | decide | exact absurd rfl ha₁ | exact absurd rfl ha₃ | exact absurd hlt (by decide)
      obtain ⟨hiff, hdata⟩ := h.others a ha₁ ha₂ ha₃
      have hahead := hlaid.ordered a (hiff.mp ha) _ hmem hhost
      have hin := (hinside b hinb hb).1
      rw [hdata]
      omega
    · obtain ⟨hiffa, hdataa⟩ := h.others a ha₁ ha₂ ha₃
      obtain ⟨hiffb, hdatab⟩ := h.others b hb₁ hb₂ hb₃
      rw [hdataa, hdatab]
      exact hlaid.ordered a (hiffa.mp ha) b (hiffb.mp hb) hlt

/-! ## 4. The whole function -/

theorem http_parse_host_laid {buf : List UInt8} {found_at : Bool} (hlaid : u₀.Laid buf.length)
    (hmem : .host ∈ u₀.field_set)
    (houter : UrlField.port ∉ u₀.field_set ∧ UrlField.userinfo ∉ u₀.field_set)
    (hlt : buf.length < 2 ^ 16) (hparse : http_parse_host buf u₀ found_at = .ok u) :
    u.Laid buf.length ∧ .host ∈ u.field_set := by
  have hstop := hlaid.stop_le _ hmem
  have hlength : ((buf.drop (u₀.field_data .host).off.toNat).take
      (u₀.field_data .host).len.toNat).length = (u₀.field_data .host).len.toNat := by
    rw [UrlSpan.stop] at hstop
    rw [List.length_take, List.length_drop]
    omega
  rw [http_parse_host] at hparse
  split at hparse
  · exact nomatch hparse
  · rename_i s u' hloop
    have hrun := (emptyHost_inv hmem houter found_at).hostLoop (Nat.le_refl _)
      (by rw [hlength]; exact Nat.lt_of_le_of_lt hstop hlt) hloop
    rw [hlength] at hrun
    split at hparse
    · rename_i hend
      obtain rfl := Except.ok.inj hparse
      exact ⟨hrun.laid (HostState.of_isEnd hend) hlaid hmem rfl rfl, hrun.mem⟩
    · exact nomatch hparse

theorem portLoop_eq {v w : Nat} {digits : List UInt8} (hv : v ≤ 0xffff)
    (h : portLoop v digits = some w) :
    w = digits.foldl (fun n c => 10 * n + (c.toNat - 48)) v ∧ w ≤ 0xffff := by
  induction digits generalizing v with
  | nil =>
    obtain rfl := Option.some.inj h
    exact ⟨rfl, hv⟩
  | cons c digits ih =>
    rw [portLoop] at h
    split at h
    · exact nomatch h
    · rename_i hle
      rw [Nat.mul_comm] at hle h
      exact ih (Nat.le_of_not_lt hle) h

/-- What an accepted URL is promised to be. -/
structure Accepted (u : ParsedUrl) (buf : List UInt8) (is_connect : Bool) : Prop where
  laid : u.Laid buf.length
  host_of_schema : .schema ∈ u.field_set → .host ∈ u.field_set
  port_value : .port ∈ u.field_set → u.port.toNat = ofNumeral (u.slice buf .port)
  connect : is_connect = true → u.field_set = {.host, .port}

theorem Laid.congr {n : Nat} {u' : ParsedUrl} (h : u.Laid n) (hset : u'.field_set = u.field_set)
    (hdata : u'.field_data = u.field_data) : u'.Laid n := by
  refine ⟨?_, ?_, ?_⟩
  · rw [hset, hdata]
    exact h.pos
  · rw [hset, hdata]
    exact h.stop_le
  · rw [hset, hdata]
    exact h.ordered

theorem readPort_accepted {buf : List UInt8} {is_connect : Bool} {u' : ParsedUrl}
    (hlaid : u.Laid buf.length) (hhost : .schema ∈ u.field_set → .host ∈ u.field_set)
    (hconnect : is_connect = true → u.field_set = {.host, .port})
    (h : readPort buf u = (0, u')) : u'.Accepted buf is_connect := by
  rw [readPort] at h
  split at h
  · split at h
    · exact absurd (Prod.mk.inj h).1 (by decide)
    · rename_i v hv
      obtain ⟨-, rfl⟩ := Prod.mk.inj h
      obtain ⟨hvalue, hle⟩ := portLoop_eq (Nat.zero_le _) hv
      refine ⟨hlaid.congr rfl rfl, hhost, fun _ => ?_, hconnect⟩
      exact (UInt16.toNat_ofNat_of_lt' (Nat.lt_of_le_of_lt hle (by decide))).trans hvalue
  · rename_i hport
    obtain ⟨-, rfl⟩ := Prod.mk.inj h
    exact ⟨hlaid, hhost, fun hmem => absurd hmem hport, hconnect⟩

theorem finish_accepted {buf : List UInt8} {is_connect : Bool} {x : UrlScan} {u' : ParsedUrl}
    (h : x.Inv buf.length) (hlt : buf.length < 2 ^ 16)
    (hfinish : finish buf is_connect x = (0, u')) : u'.Accepted buf is_connect := by
  rw [finish] at hfinish
  split at hfinish
  · exact absurd (Prod.mk.inj hfinish).1 (by decide)
  rename_i hserver
  split at hfinish
  · exact absurd (Prod.mk.inj hfinish).1 (by decide)
  rename_i u hhost
  have hfields : u.Laid buf.length ∧ (.schema ∈ u.field_set → .host ∈ u.field_set) := by
    split at hhost
    · rename_i hmem
      obtain ⟨hlaid, hmem'⟩ := http_parse_host_laid h.laid hmem h.outer hlt hhost
      exact ⟨hlaid, fun _ => hmem'⟩
    · obtain rfl := Except.ok.inj hhost
      exact ⟨h.laid, fun hschema => by_contra fun hno => hserver ⟨hschema, hno⟩⟩
  split at hfinish
  · exact absurd (Prod.mk.inj hfinish).1 (by decide)
  · rename_i hconnect
    refine readPort_accepted hfields.1 hfields.2 (fun htrue => ?_) hfinish
    exact by_contra fun hne => hconnect ⟨htrue, hne⟩

/-- The fields of a URL that is accepted lie one behind the other in the buffer, none of them empty:
the host has been taken apart, and the port is the number in its field. -/
theorem parse_url_accepted {buf : List UInt8} {is_connect : Bool} {u' : ParsedUrl}
    (hlt : buf.length < 2 ^ 16) (hparse : http_parser_parse_url buf is_connect u = (0, u')) :
    u'.Accepted buf is_connect := by
  rw [http_parser_parse_url] at hparse
  split at hparse
  · exact absurd (Prod.mk.inj hparse).1 (by decide)
  · split at hparse
    · exact absurd (Prod.mk.inj hparse).1 (by decide)
    · rename_i x hscan
      have hinv := (UrlScan.begin_inv is_connect u).scanLoop
        (by rw [Nat.zero_add]; exact hlt) hscan
      rw [Nat.zero_add] at hinv
      exact finish_accepted hinv hlt hparse

/-- A buffer with all the fields. -/
def fullUrl : List UInt8 := ascii "ws://me@[fe80::1%25a]:8080/a?b=1#c"

theorem parse_url_accepted_fullUrl :
    (http_parser_parse_url fullUrl false http_parser_url_init).2.Accepted fullUrl false :=
  parse_url_accepted (by decide +kernel) (Prod.ext (by decide +kernel) rfl)

end ParsedUrl

end LuaServer
