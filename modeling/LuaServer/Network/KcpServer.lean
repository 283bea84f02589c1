import LuaServer.Network.KcpCallbacks

/-!
# KcpServer — the session table of a server

The ids come from a 32-bit counter that starts at 0 and is incremented for each session.  They are
non-zero and different from all ids in use until it wraps.
-/

open Reasoning

namespace LuaServer

namespace KcpHost

variable {k : Ikcp} {h h' : KcpHost k}

/-- The table leads to live sessions under their ids, every session that is not destroyed is in the
table under one id, clients are told non-zero ids that no other session has, and no session is
destroyed twice. -/
structure TableConsistent (h : KcpHost k) : Prop where
  live : ∀ id p, h.__m_mapSessions id = some p →
    ∃ s, h.heap p = some s ∧ s.getSessionId = id
  found : ∀ p < h.created, p ∉ h.destroyed → ∃! id, h.__m_mapSessions id = some p
  told : ∀ o ∈ h.openings, o.key ≠ 0 ∧ o.key ∉ o.others
  destroyed_once : h.destroyed.Nodup

/-- No session is set up when the counter is at its end. -/
def CounterLeft (h : KcpHost k) : KcpAction → Prop
  | .read _ r _ => KcpRole.server.isSetup r = true → h.gSessionid + 1 ≠ 0
  | _ => True

/-- Ids in use do not exceed the counter before it wraps. -/
def Counted (h : KcpHost k) : Prop :=
  (∀ o ∈ h.openings, o.key ≠ 0) → ∀ p id, h.objects.key p = some id → id ≤ h.gSessionid

theorem tableConsistent_iff (hinv : h.objects.Inv) :
    h.TableConsistent ↔ h.objects.Complete ∧ ∀ o ∈ h.openings, o.key ≠ 0 := by
  constructor
  · intro hok
    refine ⟨⟨?_, fun o ho => (hok.told o ho).2⟩, fun o ho => (hok.told o ho).1⟩
    intro p id hp
    obtain ⟨hlt, hmem⟩ := (hinv.alive_iff p).mp (by rw [hp]; rfl)
    obtain ⟨id', hid', -⟩ := hok.found p hlt hmem
    have hkey := hinv.key_of_table (k := id') hid'
    rw [hp] at hkey
    cases hkey
    exact hid'
  · rintro ⟨hcomplete, hne⟩
    refine ⟨?_, ?_, fun o ho => ⟨hne o ho, hcomplete.fresh o ho⟩, hinv.destroyed_nodup⟩
    · intro id p hp
      exact Option.map_eq_some_iff.mp (hinv.key_of_table (t := h.objects) hp)
    · intro p hlt hmem
      obtain ⟨id, hid⟩ := Option.isSome_iff_exists.mp ((hinv.alive_iff p).mpr ⟨hlt, hmem⟩)
      refine ⟨id, hcomplete.found hid, fun id' hid' => ?_⟩
      -- the id of a session is the only key it can stand under
      have hkey := hinv.key_of_table (t := h.objects) hid'
      rw [hid] at hkey
      exact (Option.some.inj hkey).symm

theorem openedId_server {a : KcpAction} {id : UInt32} (hid : h.openedId .server a = some id) :
    id = h.gSessionid + 1 ∧ (h.CounterLeft a ↔ id ≠ 0) := by
  cases a with
  | read addr r e =>
    rw [openedId] at hid
    split at hid
    · rename_i hsetup
      cases hid
      exact ⟨rfl, forall_prop_of_true hsetup⟩
    · cases hid
  | _ => cases hid

theorem counterLeft_of_none {a : KcpAction} (hid : h.openedId .server a = none) :
    h.CounterLeft a := by
  cases a with
  | read addr r e =>
    intro hsetup
    rw [openedId, if_pos hsetup] at hid
    cases hid
  | _ => trivial

theorem lt_add_one_of_ne {n : UInt32} (h : n + 1 ≠ 0) : n < n + 1 := by
  rw [UInt32.lt_iff_toNat_lt, UInt32.toNat_add]
  have hlt := n.toNat_lt
  have hne : (n + 1).toNat ≠ 0 := fun h0 => h (UInt32.toNat_inj.mp h0)
  rw [UInt32.toNat_add] at hne
  have hone : (1 : UInt32).toNat = 1 := rfl
  omega

theorem opened_counted {a : KcpAction} (hc : h.Counted)
    (hne : ∀ o ∈ (h.opened .server a).openings, o.key ≠ 0) :
    ∀ p id, (h.opened .server a).key p = some id →
      id ≤ (h.openedId .server a).getD h.gSessionid := by
  cases hid : h.openedId .server a with
  | none =>
    rw [opened_eq_objects hid] at hne ⊢
    exact hc hne
  | some new =>
    obtain ⟨rfl, -⟩ := openedId_server hid
    rw [opened_eq_create hid] at hne ⊢
    have hnew : h.gSessionid + 1 ≠ 0 := hne ⟨_, _, _⟩ (List.mem_append_right _ List.mem_cons_self)
    intro p id hp
    simp only [ObjectTable.create, Function.update_apply] at hp
    split at hp
    · cases hp
      exact UInt32.le_refl _
    · have hle := hc (fun o ho => hne o (List.mem_append_left _ ho)) p id hp
      exact UInt32.le_trans hle (UInt32.le_of_lt (lt_add_one_of_ne hnew))

theorem step_counted {a : KcpAction} (hinv : h.Inv) (hc : h.Counted)
    (hstep : h.step .server a = some h') : h'.Counted := by
  have hspec := step_stepped hinv.1 hinv.2 hstep
  intro hne p id hp
  rw [openings_of_stepped hspec] at hne
  rw [hspec.gSessionid rfl]
  apply opened_counted hc hne p id
  rcases hspec.objects with hobj | ⟨q, hobj⟩
  · rwa [hobj] at hp
  · rw [hobj] at hp
    exact ObjectTable.key_of_close hp

/-- Under an id that is not zero a session is added to a consistent table; zero breaks it. -/
theorem step_tableConsistent_iff {a : KcpAction} (hinv : h.Inv) (hc : h.Counted)
    (hgood : h.TableConsistent) (hstep : h.step .server a = some h') :
    h'.TableConsistent ↔ h.CounterLeft a := by
  have hspec := step_stepped hinv.1 hinv.2 hstep
  rw [tableConsistent_iff hinv.2] at hgood
  obtain ⟨hcomplete, hne⟩ := hgood
  rw [tableConsistent_iff (step_inv hinv hstep).2, step_complete_iff hinv hcomplete hstep,
    openings_of_stepped hspec]
  cases hid : h.openedId .server a with
  | none =>
    refine iff_of_true ⟨fun id hfalse => ?_, ?_⟩ (counterLeft_of_none hid)
    · cases hfalse
    · rwa [opened_eq_objects hid]
  | some new =>
    obtain ⟨rfl, hleft⟩ := openedId_server hid
    rw [hleft, opened_eq_create hid]
    constructor
    · rintro ⟨-, hne'⟩
      exact hne' ⟨_, _, _⟩ (List.mem_append_right _ List.mem_cons_self)
    · intro hnew
      constructor
      · -- an id above the counter is in nobody's use
        rintro id ⟨⟩
        rw [← Option.not_isSome_iff_eq_none]
        intro hsome
        obtain ⟨p, hp⟩ := Option.isSome_iff_exists.mp hsome
        have hle := hc hne p _ (hinv.2.key_of_table hp)
        exact UInt32.not_le.mpr (lt_add_one_of_ne hnew) hle
      · intro o ho
        rcases List.mem_append.mp ho with ho | ho
        · exact hne o ho
        · rw [List.mem_singleton.mp ho]
          exact hnew

/-- The table of a server is consistent in every state of a run exactly when no session is set up
with the counter at its end. -/
theorem table_consistent_iff (actions : List KcpAction) :
    Always TableConsistent (step .server) (fresh : KcpHost k) actions ↔
      Meets CounterLeft (step .server) (fresh : KcpHost k) actions := by
  apply always_iff_meets (I := fun h => h.Inv ∧ h.Counted)
  · rintro h a h' ⟨hinv, hc⟩ hstep
    exact ⟨step_inv hinv hstep, step_counted hinv hc hstep⟩
  · rintro h a h' ⟨hinv, hc⟩ hgood hstep
    exact step_tableConsistent_iff hinv hc hgood hstep
  · refine ⟨fresh_inv, fun _ p id hp => ?_⟩
    cases hp
  · apply (tableConsistent_iff fresh_inv.2).mpr
    exact ⟨ObjectTable.empty_complete, fun o ho => by cases ho⟩

/-! ## The counter wraps -/

/-- A request for a session that the application closes in `onAccept`. -/
def closedRequest : KcpAction := .read [] setupRequest ⟨0, 0, ⟨[], true⟩, ⟨[], false⟩, ⟨[], false⟩⟩

theorem closedRequests_run (n : Nat) :
    ∃ h : KcpHost k, run (step .server) fresh (List.replicate n closedRequest) = some h ∧ h.Inv ∧
      h.misused = false ∧ h.gSessionid = UInt32.ofNat n ∧
      (0 < n → ∃ o ∈ h.openings, o.key = UInt32.ofNat n) := by
  induction n with
  | zero => exact ⟨fresh, rfl, fresh_inv, rfl, rfl, fun h => absurd h (by decide)⟩
  | succ n ih =>
    obtain ⟨h, hrun, hinv, hm, hid, -⟩ := ih
    obtain ⟨h', hstep⟩ : ∃ h', h.step .server closedRequest = some h' := by
      rw [step, hm]
      exact ⟨_, rfl⟩
    have hspec := step_stepped hinv.1 hinv.2 hstep
    have hopened : h.openedId .server closedRequest = some (UInt32.ofNat (n + 1)) := by
      show some (h.gSessionid + 1) = _
      rw [hid, UInt32.ofNat_add]
      rfl
    refine ⟨h', ?_, step_inv hinv hstep, ?_, ?_, fun _ => ?_⟩
    · rw [List.replicate_succ', run_append_iff]
      exact ⟨h, hrun, run_cons_iff.mpr ⟨_, hstep, rfl⟩⟩
    · rw [← Bool.not_eq_true, hspec.misused, not_not]
      intro _ hfalse
      cases hfalse
    · rw [hspec.gSessionid rfl, hopened]
      rfl
    · rw [openings_of_stepped hspec, opened_eq_create hopened]
      exact ⟨_, List.mem_append_right _ List.mem_cons_self, rfl⟩

/-- The request number `2 ^ 32` is answered with the id 0. -/
theorem counter_wraps :
    ¬ Always TableConsistent (step .server) (fresh : KcpHost inOrder)
      (List.replicate (2 ^ 32) closedRequest) := by
  intro hgood
  obtain ⟨h, hrun, -, -, -, htold⟩ := closedRequests_run (k := inOrder) (2 ^ 32)
  obtain ⟨o, ho, hzero⟩ := htold (by decide)
  exact ((hgood.reached hrun).told o ho).1 hzero

end KcpHost

end LuaServer
