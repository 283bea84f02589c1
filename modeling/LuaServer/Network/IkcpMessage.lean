import LuaServer.Network.IkcpFlush

/-!
# IkcpMessage — messages cut into fragments

The fragments of a message count down to 0, which is how the receiver knows where it ends.
-/

open Reasoning

namespace LuaServer

/-! ## 1. Whole messages -/

/-- The fragments are those of one message. -/
inductive Whole : List Fragment → List UInt8 → Prop
  | last (data : List UInt8) : Whole [⟨0, data⟩] data
  | cons (frg : UInt32) {fs : List Fragment} {m : List UInt8} (data : List UInt8)
      (hfrg : frg.toNat = fs.length) (h : Whole fs m) : Whole (⟨frg, data⟩ :: fs) (data ++ m)

/-- The fragments are those of some messages, one behind the other. -/
inductive Messages : List Fragment → List (List UInt8) → Prop
  | nil : Messages [] []
  | cons {fs rest : List Fragment} {m : List UInt8} {ms : List (List UInt8)} (h : Whole fs m)
      (hrest : Messages rest ms) : Messages (fs ++ rest) (m :: ms)

section
variable {fs fs' gs gs' : List Fragment} {f : Fragment} {m m' : List UInt8}
  {ms ms' : List (List UInt8)}

theorem Whole.ne_nil (h : Whole fs m) : fs ≠ [] := by
  cases h <;> exact List.cons_ne_nil _ _

/-- The first number tells how many fragments there are. -/
theorem Whole.length_eq (h : Whole (f :: fs) m) : f.frg.toNat = fs.length := by
  cases h with
  | last => rfl
  | cons _ _ hfrg _ => exact hfrg

/-- A message ends where its numbers have come down to 0. -/
theorem Whole.unique (h : Whole fs m) (h' : Whole fs' m') (heq : fs ++ gs = fs' ++ gs') :
    fs = fs' ∧ m = m' := by
  induction h generalizing fs' m' with
  | last data =>
    cases h' with
    | last data' =>
      cases heq
      exact ⟨rfl, rfl⟩
    | cons frg data' hfrg hrest =>
      cases heq
      exact absurd (List.length_eq_zero_iff.mp hfrg.symm) hrest.ne_nil
  | cons frg data hfrg hrest ih =>
    cases h' with
    | last data' =>
      cases heq
      exact absurd (List.length_eq_zero_iff.mp hfrg.symm) hrest.ne_nil
    | cons frg' data' hfrg' hrest' =>
      injection heq with hhead htail
      cases hhead
      obtain ⟨rfl, rfl⟩ := ih hrest' htail
      exact ⟨rfl, rfl⟩

theorem Messages.append (h : Messages fs ms) (h' : Messages gs ms') :
    Messages (fs ++ gs) (ms ++ ms') := by
  induction h with
  | nil => exact h'
  | cons hw _ ih =>
    rw [List.append_assoc]
    exact .cons hw ih

theorem Messages.single (h : Whole fs m) : Messages fs [m] := by
  have := Messages.cons h .nil
  rwa [List.append_nil] at this

theorem Messages.ms_eq_nil (h : Messages [] ms) : ms = [] := by
  generalize hfs : ([] : List Fragment) = fs at h
  cases h with
  | nil => rfl
  | cons hw _ => exact absurd (List.append_eq_nil_iff.mp hfs.symm).1 hw.ne_nil

/-- Behind whole messages there are whole messages. -/
theorem Messages.split (h : Messages fs ms) (h' : Messages (fs ++ gs) ms') :
    ∃ ms'', ms' = ms ++ ms'' ∧ Messages gs ms'' := by
  induction h generalizing ms' with
  | nil => exact ⟨ms', rfl, h'⟩
  | cons hw _ ih =>
    rw [List.append_assoc] at h'
    generalize hall : _ ++ (_ ++ gs) = all at h'
    cases h' with
    | nil => exact absurd (List.append_eq_nil_iff.mp hall).1 hw.ne_nil
    | cons hw' hrest' =>
      obtain ⟨rfl, rfl⟩ := hw.unique hw' hall
      obtain ⟨ms'', rfl, hms''⟩ := ih (List.append_cancel_left hall ▸ hrest')
      exact ⟨ms'', rfl, hms''⟩

/-- What comes first is a message. -/
theorem Messages.head (h : Messages (f :: fs) ms) :
    ∃ m ms' gs gs', ms = m :: ms' ∧ f :: fs = gs ++ gs' ∧ Whole gs m ∧ Messages gs' ms' := by
  generalize hall : f :: fs = all at h
  cases h with
  | nil => cases hall
  | cons hw hrest => exact ⟨_, _, _, _, rfl, rfl, hw, hrest⟩

/-- The last fragment of a message can be made longer. -/
theorem Whole.extend (h : Whole (fs ++ [f]) m) (data : List UInt8) :
    f.frg = 0 ∧ Whole (fs ++ [⟨0, f.data ++ data⟩]) (m ++ data) := by
  generalize hall : fs ++ [f] = all at h
  induction h generalizing fs with
  | last d =>
    cases fs with
    | nil =>
      cases hall
      exact ⟨rfl, .last _⟩
    | cons g fs =>
      injection hall with _ htail
      exact absurd htail (List.append_ne_nil_of_right_ne_nil _ (List.cons_ne_nil _ _))
  | cons frg d hfrg hrest ih =>
    cases fs with
    | nil =>
      injection hall with _ htail
      exact absurd htail.symm hrest.ne_nil
    | cons g fs =>
      injection hall with hhead htail
      subst hhead
      obtain ⟨hzero, hwhole⟩ := ih htail
      refine ⟨hzero, ?_⟩
      rw [List.append_assoc]
      refine .cons frg d ?_ hwhole
      rw [hfrg, ← htail]
      simp

/-- Bytes added to the last fragment are added to the last message. -/
theorem Messages.extend (h : Messages (fs ++ [f]) ms) (data : List UInt8) :
    f.frg = 0 ∧ ∃ ms', Messages (fs ++ [⟨0, f.data ++ data⟩]) ms' ∧
      ms'.flatten = ms.flatten ++ data := by
  generalize hall : fs ++ [f] = all at h
  induction h generalizing fs with
  | nil => exact absurd hall (List.append_ne_nil_of_right_ne_nil _ (List.cons_ne_nil _ _))
  | @cons gs rest m ms hw hrest ih =>
    rcases List.eq_nil_or_concat rest with rfl | ⟨rest, g, rfl⟩
    · rw [List.append_nil] at hall
      obtain ⟨hzero, hwhole⟩ := (hall ▸ hw).extend data
      refine ⟨hzero, [m ++ data], .single hwhole, ?_⟩
      rw [hrest.ms_eq_nil]
      simp
    · rw [List.concat_eq_append, ← List.append_assoc] at hall
      obtain ⟨rfl, hlast⟩ := List.append_inj' hall rfl
      cases hlast
      obtain ⟨hzero, ms', hms', hflat⟩ := ih (List.concat_eq_append).symm
      refine ⟨hzero, m :: ms', ?_, ?_⟩
      · rw [List.append_assoc]
        exact .cons hw hms'
      · rw [List.flatten_cons, hflat, List.flatten_cons, List.append_assoc]

end

/-! ## 2. `ikcp_send` -/

namespace IKCPCB

variable {kcp : IKCPCB} {mss left : Nat} {buffer : List UInt8}

theorem fragment_length (mss : Nat) (stream : Int) (left : Nat) (buffer : List UInt8) :
    (fragment mss stream left buffer).length = left := by
  induction left generalizing buffer with
  | zero => rfl
  | succ left ih => rw [fragment, List.length_cons, ih]

/-- The segments of a message count down to 0, and all of it is in them. -/
theorem fragment_whole (hlen : buffer.length ≤ (left + 1) * mss) (hleft : left < 2 ^ 32) :
    Whole ((fragment mss 0 (left + 1) buffer).map IKCPSEG.fragment) buffer := by
  induction left generalizing buffer with
  | zero =>
    rw [Nat.zero_add, Nat.one_mul] at hlen
    have htake : buffer.take mss = buffer := List.take_of_length_le hlen
    show Whole [⟨0, buffer.take mss⟩] buffer
    rw [htake]
    exact .last buffer
  | succ left ih =>
    have hdrop : (buffer.drop mss).length ≤ (left + 1) * mss := by
      rw [List.length_drop, Nat.sub_le_iff_le_add, ← Nat.succ_mul]
      exact hlen
    have hwhole := Whole.cons (UInt32.ofNat (left + 1)) (buffer.take mss)
      (by
        rw [List.length_map, fragment_length, UInt32.toNat_ofNat_of_lt' hleft])
      (ih hdrop (Nat.lt_of_succ_lt hleft))
    rw [List.take_append_drop] at hwhole
    exact hwhole

/-- In stream mode each segment ends a message. -/
theorem fragment_stream {stream : Int} (hstream : stream ≠ 0)
    (hlen : buffer.length ≤ left * mss) :
    ∃ ms, Messages ((fragment mss stream left buffer).map IKCPSEG.fragment) ms ∧
      ms.flatten = buffer := by
  induction left generalizing buffer with
  | zero =>
    rw [Nat.zero_mul] at hlen
    exact ⟨[], .nil, (List.eq_nil_of_length_eq_zero (Nat.le_zero.mp hlen)).symm⟩
  | succ left ih =>
    have hdrop : (buffer.drop mss).length ≤ left * mss := by
      rw [List.length_drop, Nat.sub_le_iff_le_add, ← Nat.succ_mul]
      exact hlen
    obtain ⟨ms, hms, hflat⟩ := ih hdrop
    refine ⟨buffer.take mss :: ms, ?_, ?_⟩
    · rw [fragment, if_neg hstream]
      exact Messages.cons (.last _) hms
    · rw [List.flatten_cons, hflat, List.take_append_drop]

theorem fragment_fits (mss : Nat) (stream : Int) (hleft : left ≤ 128) (buffer : List UInt8) :
    ∀ seg ∈ fragment mss stream left buffer,
      seg.frg.toNat < 128 ∧ seg.data.length ≤ mss := by
  induction left generalizing buffer with
  | zero => exact fun _ h => nomatch h
  | succ left ih =>
    intro seg hseg
    rcases List.mem_cons.mp hseg with rfl | hseg
    · refine ⟨?_, List.length_take_le _ _⟩
      show (if stream = 0 then UInt32.ofNat left else 0).toNat < 128
      split
      · rw [UInt32.toNat_ofNat_of_lt' (Nat.lt_of_lt_of_le hleft (by decide))]
        exact hleft
      · decide
    · exact ih (Nat.le_of_succ_le hleft) _ seg hseg

/-- The count is enough for the bytes. -/
theorem length_le_fragmentCount (hmss : 0 < kcp.mss.toNat) (len : Nat) :
    len ≤ kcp.fragmentCount len * kcp.mss.toNat := by
  rw [fragmentCount]
  split
  · rwa [Nat.one_mul]
  · have hdiv := Nat.div_add_mod (len + kcp.mss.toNat - 1) kcp.mss.toNat
    have hmod := Nat.mod_lt (len + kcp.mss.toNat - 1) hmss
    rw [Nat.mul_comm] at hdiv
    omega

/-- Bytes, in message mode whole messages, have been put at the end of `snd_queue`. -/
structure Queued (kcp kcp' : IKCPCB) (taken : List (List UInt8)) : Prop where
  sending : kcp'.sending =
    { kcp.sending with queue := kcp'.snd_queue.map IKCPSEG.fragment }
  receiving : kcp'.receiving = kcp.receiving
  settings : kcp'.settings = kcp.settings
  fits : ∀ seg ∈ kcp'.snd_queue, seg ∈ kcp.snd_queue ∨
    seg.frg.toNat < 128 ∧ seg.data.length ≤ kcp.mss.toNat
  messages : ∀ front ms, Messages (front ++ kcp.snd_queue.map IKCPSEG.fragment) ms →
    ∃ ms', Messages (front ++ kcp'.snd_queue.map IKCPSEG.fragment) ms' ∧
      ms'.flatten = ms.flatten ++ taken.flatten ∧ (kcp.stream = 0 → ms' = ms ++ taken)

theorem Queued.mss_eq {kcp' : IKCPCB} {taken : List (List UInt8)} (h : Queued kcp kcp' taken) :
    kcp'.mss = kcp.mss :=
  congrArg Settings.mss h.settings

theorem Queued.refl (kcp : IKCPCB) : Queued kcp kcp [] where
  sending := rfl
  receiving := rfl
  settings := rfl
  fits := fun _ h => .inl h
  messages := fun _ ms h => ⟨ms, h, (List.append_nil _).symm, fun _ => (List.append_nil _).symm⟩

/-- In stream mode only the bytes count. -/
theorem Queued.trans {kcp₁ kcp₂ : IKCPCB} {taken₁ taken₂ taken : List (List UInt8)}
    (h : Queued kcp kcp₁ taken₁) (h' : Queued kcp₁ kcp₂ taken₂) (hstream : kcp.stream ≠ 0)
    (hflat : taken.flatten = taken₁.flatten ++ taken₂.flatten) : Queued kcp kcp₂ taken where
  sending := by rw [h'.sending, h.sending]
  receiving := h'.receiving.trans h.receiving
  settings := h'.settings.trans h.settings
  fits := by
    intro seg hseg
    rcases h'.fits seg hseg with hseg | hfits
    · exact h.fits seg hseg
    · exact .inr (h.mss_eq ▸ hfits)
  messages := by
    intro front ms hms
    obtain ⟨ms₁, hms₁, hflat₁, -⟩ := h.messages front ms hms
    obtain ⟨ms₂, hms₂, hflat₂, -⟩ := h'.messages front ms₁ hms₁
    refine ⟨ms₂, hms₂, ?_, fun h => absurd h hstream⟩
    rw [hflat₂, hflat₁, hflat, List.append_assoc]

theorem fragmentCount_pos (hmss : 0 < kcp.mss.toNat) (len : Nat) : 0 < kcp.fragmentCount len := by
  rw [fragmentCount]
  split
  · exact Nat.one_pos
  · exact Nat.div_pos (by omega) hmss

/-- `ikcp_send` of a buffer with too many fragments changes nothing here. -/
theorem sendFragments_queued (kcp : IKCPCB) (hmss : 0 < kcp.mss.toNat) (buffer : List UInt8) :
    Queued kcp (kcp.sendFragments buffer).1
      (if (kcp.sendFragments buffer).2 = 0 then [buffer] else []) := by
  unfold sendFragments
  extract_lets count count'
  split
  · exact .refl kcp
  rename_i hcount
  have hpos : 0 < count := fragmentCount_pos hmss _
  obtain ⟨left, hleft⟩ : ∃ left, count = left + 1 := ⟨count - 1, by omega⟩
  have hcount' : count' = left + 1 := by
    unfold count'
    rw [if_neg (by omega), hleft]
  have hsmall : left + 1 < 128 := by
    rw [← hleft]
    exact Nat.lt_of_not_le hcount
  have hlen : buffer.length ≤ (left + 1) * kcp.mss.toNat := by
    rw [← hleft]
    exact length_le_fragmentCount hmss _
  rw [hcount', if_pos rfl]
  refine ⟨rfl, rfl, rfl, ?_, ?_⟩
  · intro seg hseg
    exact (List.mem_append.mp hseg).imp_right (fragment_fits _ _ (by omega) _ seg)
  · intro front ms hms
    dsimp only
    rw [List.map_append, ← List.append_assoc]
    by_cases hstream : kcp.stream = 0
    · refine ⟨ms ++ [buffer], ?_, by simp, fun _ => rfl⟩
      rw [hstream]
      exact hms.append (.single (fragment_whole hlen (by omega)))
    · obtain ⟨ms', hms', hflat⟩ := fragment_stream hstream hlen
      exact ⟨ms ++ ms', hms.append hms', by simp [hflat], fun h => absurd h hstream⟩

/-- `extendLast` puts the first bytes into the last segment, as far as there is room. -/
theorem extendLast_cases (kcp : IKCPCB) (buffer : List UInt8) :
    kcp.extendLast buffer = (kcp, buffer) ∨
      ∃ front old n, kcp.snd_queue = front ++ [old] ∧ n ≤ buffer.length ∧
        old.data.length + n ≤ kcp.mss.toNat ∧
        kcp.extendLast buffer =
          (kcp.setSndQueue (front ++ [IKCPSEG.unnumbered 0 (old.data ++ buffer.take n)]),
            buffer.drop n) := by
  rw [extendLast]
  split
  · exact .inl rfl
  · rename_i old hlast
    split
    · obtain ⟨front, hqueue⟩ := List.getLast?_eq_some_iff.mp hlast
      have hextend : kcp.extend old buffer ≤ buffer.length ∧
          old.data.length + kcp.extend old buffer ≤ kcp.mss.toNat := by
        unfold extend
        extract_lets capacity
        split <;> omega
      refine .inr ⟨front, old, kcp.extend old buffer, hqueue, hextend.1, hextend.2, ?_⟩
      rw [hqueue, List.dropLast_concat]
    · exact .inl rfl

/-- The bytes that `extendLast` puts into the last segment. -/
def extension (kcp : IKCPCB) (buffer : List UInt8) : List UInt8 :=
  buffer.take (buffer.length - (kcp.extendLast buffer).2.length)

theorem extension_append (kcp : IKCPCB) (buffer : List UInt8) :
    kcp.extension buffer ++ (kcp.extendLast buffer).2 = buffer := by
  rw [extension]
  rcases extendLast_cases kcp buffer with heq | ⟨front, old, n, -, hn, -, heq⟩
  · rw [heq, Nat.sub_self]
    rfl
  · rw [heq, List.length_drop, Nat.sub_sub_self hn]
    exact List.take_append_drop n buffer

theorem extendLast_queued (hstream : kcp.stream ≠ 0) (buffer : List UInt8) :
    Queued kcp (kcp.extendLast buffer).1 [kcp.extension buffer] := by
  rw [extension]
  rcases extendLast_cases kcp buffer with heq | ⟨front, old, n, hqueue, hn, hroom, heq⟩
  · rw [heq, Nat.sub_self]
    exact (Queued.refl kcp).trans (.refl kcp) hstream rfl
  rw [heq, List.length_drop, Nat.sub_sub_self hn]
  refine ⟨rfl, rfl, rfl, ?_, ?_⟩
  · intro seg hseg
    rcases List.mem_append.mp hseg with hseg | hseg
    · exact .inl (hqueue ▸ List.mem_append_left _ hseg)
    · rw [List.mem_singleton.mp hseg]
      refine .inr ⟨show (0 : UInt32).toNat < 128 by decide, ?_⟩
      show (old.data ++ buffer.take n).length ≤ _
      rw [List.length_append, List.length_take, Nat.min_eq_left hn]
      exact hroom
  · intro before ms hms
    rw [hqueue, List.map_append, ← List.append_assoc] at hms
    obtain ⟨-, ms', hms', hflat⟩ := hms.extend (buffer.take n)
    refine ⟨ms', ?_, ?_, fun h => absurd h hstream⟩
    · show Messages (before ++ List.map _ (front ++ [_])) ms'
      rw [List.map_append, ← List.append_assoc]
      exact hms'
    · rw [hflat, List.flatten_singleton]

/-- What `ikcp_send` takes.  In stream mode it may have taken the first bytes when it fails. -/
def takes (kcp : IKCPCB) (buffer : List UInt8) : List (List UInt8) :=
  if (kcp.ikcp_send buffer).2 = 0 then [buffer]
  else if kcp.stream ≠ 0 then [kcp.extension buffer] else []

theorem length_le_of_mem_takes {m : List UInt8} (h : m ∈ kcp.takes buffer) :
    m.length ≤ buffer.length := by
  rw [takes] at h
  split at h
  · rw [List.mem_singleton.mp h]
  split at h
  · rw [List.mem_singleton.mp h]
    exact List.length_take_le' _ _
  · cases h

theorem ikcp_send_queued (hmss : 0 < kcp.mss.toNat) (buffer : List UInt8) :
    Queued kcp (kcp.ikcp_send buffer).1 (kcp.takes buffer) := by
  rw [takes, ikcp_send]
  by_cases hstream : kcp.stream = 0
  · rw [if_neg (not_not_intro hstream), if_neg (not_not_intro hstream)]
    exact sendFragments_queued kcp hmss buffer
  rw [if_pos hstream, if_pos hstream]
  have hlast := extendLast_queued hstream buffer
  have happend := extension_append kcp buffer
  dsimp only
  split
  · rename_i hnone
    rw [hnone, List.append_nil] at happend
    rw [if_pos rfl]
    exact hlast.trans (.refl _) hstream (by rw [happend]; simp)
  · have hrest := sendFragments_queued (kcp.extendLast buffer).1 (hlast.mss_eq ▸ hmss)
      (kcp.extendLast buffer).2
    apply hlast.trans hrest hstream
    split
    · simp [happend]
    · simp

end IKCPCB

/-! ## 3. `ikcp_recv` -/

section
variable {w : Receiving} {t : Transfer Fragment} {gs gs' : List Fragment} {m : List UInt8}

/-- Some of what is ready leaves `rcv_queue`. -/
theorem Receiving.Stands.take (h : w.Stands t) (hi : t.Inv) {k : Nat}
    (hk : k ≤ w.queue.length) :
    (t.handOut k).Inv ∧
      ({ w with
        nrcv_que := w.nrcv_que - UInt32.ofNat k
        queue := w.queue.drop k } : Receiving).Stands (t.handOut k) := by
  have hready := hi.ready_length
  rw [← h.ready] at hready
  have hle := hi.taken_le
  refine ⟨hi.handOut (by omega), h.next, ?_, ?_, h.buf, h.early, h.owed⟩
  · show w.queue.drop k = List.drop (t.taken + k) (List.take t.expected t.sent)
    rw [h.ready, Transfer.ready, List.drop_drop]
  · have hcounted := h.counted
    have hlt := w.nrcv_que.toNat_lt
    show (w.nrcv_que - UInt32.ofNat k).toNat = (w.queue.drop k).length
    rw [List.length_drop, UInt32.toNat_sub, UInt32.toNat_ofNat']
    omega

/-- What is complete at the front of `rcv_queue` is the next message. -/
theorem next_message {ms delivered : List (List UInt8)} {f : Fragment} {rest : List Fragment}
    (h : w.Stands t) (hi : t.Inv) (hms : Messages (t.sent ++ t.waiting) ms)
    (hdelivered : Messages (t.sent.take t.taken) delivered) (hqueue : w.queue = f :: rest)
    (hcomplete : f.frg.toNat < w.queue.length) :
    ∃ m gs gs', w.queue = gs ++ gs' ∧ Whole gs m ∧
      Messages (t.sent.take (t.taken + gs.length)) (delivered ++ [m]) := by
  have hle : t.taken ≤ t.sent.length := hi.taken_le.trans hi.expected_le
  have hsplit : t.sent ++ t.waiting =
      t.sent.take t.taken ++ (t.sent ++ t.waiting).drop t.taken := by
    rw [List.drop_append_of_le_length hle, ← List.append_assoc, List.take_append_drop]
  obtain ⟨ms', rfl, hrest⟩ := hdelivered.split (hsplit ▸ hms)
  have hprefix : w.queue <+: (t.sent ++ t.waiting).drop t.taken := h.ready ▸ t.ready_isPrefix
  obtain ⟨tail, htail⟩ := hprefix
  rw [← htail, hqueue, List.cons_append] at hrest
  obtain ⟨m, ms', gs, gs', rfl, hall, hwhole, -⟩ := hrest.head
  have hgs : gs <+: w.queue := by
    have hlen : gs.length ≤ w.queue.length := by
      cases gs with
      | nil => exact Nat.zero_le _
      | cons g gs =>
        injection hall with hhead _
        rw [List.length_cons, ← hwhole.length_eq, ← hhead]
        exact hcomplete
    refine List.prefix_of_prefix_length_le ?_ (List.prefix_append w.queue tail) hlen
    rw [hqueue, List.cons_append, hall]
    exact List.prefix_append gs gs'
  obtain ⟨gs'', hgs''⟩ := hgs
  refine ⟨m, gs, gs'', hgs''.symm, hwhole, ?_⟩
  have hsent : gs <+: t.sent.drop t.taken := by
    have hready : w.queue <+: t.sent.drop t.taken := by
      rw [h.ready, Transfer.ready]
      exact (List.take_prefix _ _).drop _
    exact (hgs'' ▸ List.prefix_append gs gs'' : gs <+: w.queue).trans hready
  have htake : t.sent.take (t.taken + gs.length) = t.sent.take t.taken ++ gs := by
    rw [List.take_add, ← List.prefix_iff_eq_take.mp hsent]
  rw [htake]
  exact hdelivered.append (.single hwhole)

namespace IKCPCB

variable {kcp : IKCPCB}

theorem merge_whole {queue : List IKCPSEG} (h : Whole gs m)
    (hqueue : queue.map IKCPSEG.fragment = gs ++ gs') :
    (merge queue).1 = m ∧ (merge queue).2 = queue.drop gs.length := by
  induction h generalizing queue with
  | last data =>
    cases queue with
    | nil => cases hqueue
    | cons seg queue =>
      injection hqueue with hhead _
      have hfrg : seg.frg = 0 := congrArg Fragment.frg hhead
      rw [merge, if_pos hfrg]
      exact ⟨congrArg Fragment.data hhead, rfl⟩
  | cons frg data hfrg hwhole ih =>
    cases queue with
    | nil => cases hqueue
    | cons seg queue =>
      injection hqueue with hhead htail
      have hseg : seg.frg = frg := congrArg Fragment.frg hhead
      have hdata : seg.data = data := congrArg Fragment.data hhead
      obtain ⟨hmerge, hrest⟩ := ih htail
      have hne : seg.frg ≠ 0 := by
        intro hzero
        rw [← hseg, hzero] at hfrg
        exact hwhole.ne_nil (List.length_eq_zero_iff.mp hfrg.symm)
      rw [merge, if_neg hne, hmerge, hrest, hdata]
      exact ⟨rfl, rfl⟩

/-- A message has a size only when all of it is in `rcv_queue`. -/
theorem complete_of_peeksize {seg : IKCPSEG} {rest : List IKCPSEG} (h : kcp.receiving.Stands t)
    (hqueue : kcp.rcv_queue = seg :: rest) (hfrg : seg.frg.toNat < 256)
    (hsize : ¬ kcp.ikcp_peeksize < 0) : seg.frg.toNat < kcp.rcv_queue.length := by
  rw [ikcp_peeksize, hqueue] at hsize
  dsimp only at hsize
  split at hsize
  · rename_i hzero
    rw [hzero, hqueue]
    exact Nat.succ_pos _
  split at hsize
  · exact absurd (by decide) hsize
  · rename_i hnque
    have hle : (seg.frg + 1).toNat ≤ kcp.nrcv_que.toNat :=
      UInt32.le_iff_toNat_le.mp (UInt32.not_lt.mp hnque)
    have hcounted : kcp.nrcv_que.toNat = (kcp.rcv_queue.map IKCPSEG.fragment).length := h.counted
    rw [List.length_map] at hcounted
    rw [UInt32.toNat_add, UInt32.toNat_one] at hle
    omega

theorem takeMessage_stands {gs gs' : List Fragment} (h : kcp.receiving.Stands t) (hi : t.Inv)
    (hqueue : kcp.receiving.queue = gs ++ gs') (hwhole : Whole gs m) :
    (t.handOut gs.length).Inv ∧ kcp.takeMessage.receiving.Stands (t.handOut gs.length) := by
  have hlen : gs.length ≤ kcp.receiving.queue.length := by
    rw [hqueue, List.length_append]
    exact Nat.le_add_right _ _
  obtain ⟨hinv, hstands⟩ := h.take hi hlen
  refine ⟨hinv, ?_⟩
  obtain ⟨-, hrest⟩ := merge_whole hwhole hqueue
  have hlen' : gs.length ≤ kcp.rcv_queue.length := by
    rw [← List.length_map (f := IKCPSEG.fragment)]
    exact hlen
  have hview : kcp.takeMessage.receiving = { kcp.receiving with
      nrcv_que := kcp.receiving.nrcv_que - UInt32.ofNat gs.length
      queue := kcp.receiving.queue.drop gs.length } := by
    rw [takeMessage, hrest, List.length_drop, Nat.sub_sub_self hlen', receiving]
    dsimp only
    rw [List.map_drop]
    rfl
  rw [hview]
  exact hstands

theorem fastRecover_views (kcp : IKCPCB) (full : Bool) :
    (kcp.fastRecover full).sending = kcp.sending ∧
      (kcp.fastRecover full).receiving = kcp.receiving := by
  rw [fastRecover]
  split
  · exact ⟨rfl, rfl⟩
  · exact ⟨rfl, rfl⟩

/-- What `ikcp_recv` hands to its caller and takes out of the queue. -/
def delivers (kcp : IKCPCB) (len : Int) : List (List UInt8) :=
  if 0 ≤ (kcp.ikcp_recv len).2.1 ∧ 0 ≤ len then [(kcp.ikcp_recv len).2.2] else []

theorem ikcp_recv_cases (kcp : IKCPCB) (len : Int) :
    (∃ code < 0, kcp.ikcp_recv len = (kcp, code, [])) ∨
      (kcp.rcv_queue ≠ [] ∧ ¬ kcp.ikcp_peeksize < 0 ∧
        ∃ full, kcp.ikcp_recv len =
          ((if len < 0 then kcp else kcp.takeMessage).afterRecv full,
            toInt32 (merge kcp.rcv_queue).1.length, (merge kcp.rcv_queue).1)) := by
  by_cases hempty : kcp.rcv_queue = []
  · exact .inl ⟨-1, by decide, by rw [ikcp_recv, if_pos hempty]⟩
  by_cases hsize : kcp.ikcp_peeksize < 0
  · exact .inl ⟨-2, by decide, by rw [ikcp_recv, if_neg hempty, if_pos hsize]⟩
  by_cases hlen : (if len < 0 then -len else len) < kcp.ikcp_peeksize
  · exact .inl ⟨-3, by decide, by rw [ikcp_recv, if_neg hempty, if_neg hsize, if_pos hlen]⟩
  · exact .inr ⟨hempty, hsize, _, by rw [ikcp_recv, if_neg hempty, if_neg hsize, if_neg hlen]⟩

theorem peeksize_eq (hne : kcp.rcv_queue ≠ []) (hsize : ¬ kcp.ikcp_peeksize < 0) :
    kcp.ikcp_peeksize = toInt32 (merge kcp.rcv_queue).1.length := by
  obtain ⟨seg, rest, hqueue⟩ := List.exists_cons_of_ne_nil hne
  rw [ikcp_peeksize, hqueue] at hsize ⊢
  dsimp only at hsize ⊢
  split
  · rename_i hzero
    rw [merge, if_pos hzero]
  split
  · rename_i hzero hnque
    rw [if_neg hzero, if_pos hnque] at hsize
    exact absurd (by decide) hsize
  · rfl

theorem afterRecv_receives (h : kcp.receiving.Stands t) (hi : t.Inv) (hfew : Few t)
    (full : Bool) : ∃ t', t.Receives t' ∧ (kcp.afterRecv full).receiving.Stands t' := by
  rw [afterRecv, (fastRecover_views _ full).2]
  exact moveAvailable_receives kcp h hi hfew

/-- A message is handed out, the next in order, and `rcv_queue` is filled up. -/
theorem ikcp_recv_receives {ms delivered : List (List UInt8)} (h : kcp.receiving.Stands t)
    (hi : t.Inv) (hfew : Few t) (hfits : FitsAll t) (hms : Messages (t.sent ++ t.waiting) ms)
    (hdelivered : Messages (t.sent.take t.taken) delivered) (len : Int) :
    ∃ k t', (t.handOut k).Inv ∧ (t.handOut k).Receives t' ∧
      (kcp.ikcp_recv len).1.receiving.Stands t' ∧
      Messages (t.sent.take (t.taken + k)) (delivered ++ kcp.delivers len) := by
  rw [delivers]
  rcases ikcp_recv_cases kcp len with ⟨code, hcode, heq⟩ | ⟨hne, hsize, full, heq⟩
  · rw [heq, if_neg fun hpos => absurd hpos.1 (Int.not_le.mpr hcode), List.append_nil]
    exact ⟨0, t, hi, .refl, h, hdelivered⟩
  have hsize' := peeksize_eq hne hsize
  rw [heq, ← hsize']
  dsimp only
  by_cases hlen : len < 0
  · rw [if_pos hlen, if_neg fun hpos => absurd hpos.2 (Int.not_le.mpr hlen), List.append_nil]
    obtain ⟨t', hsteps, hstands⟩ := afterRecv_receives h hi hfew full
    exact ⟨0, t', hi, hsteps, hstands, hdelivered⟩
  rw [if_neg hlen, if_pos ⟨Int.not_lt.mp hsize, Int.not_lt.mp hlen⟩]
  obtain ⟨seg, rest, hqueue⟩ := List.exists_cons_of_ne_nil hne
  have hview : kcp.receiving.queue = seg.fragment :: rest.map IKCPSEG.fragment := by
    rw [receiving, hqueue]
    rfl
  have hmem : seg.fragment ∈ t.sent ++ t.waiting := by
    have hready : seg.fragment ∈ t.ready := by
      rw [← h.ready, hview]
      exact List.mem_cons_self
    exact List.mem_of_mem_drop (t.ready_isPrefix.subset hready)
  have hfrg : seg.frg.toNat < 256 := Nat.lt_trans (hfits _ hmem).1 (by decide)
  have hcomplete := complete_of_peeksize h hqueue hfrg hsize
  rw [← List.length_map (f := IKCPSEG.fragment)] at hcomplete
  obtain ⟨m, gs, gs', hgs, hwhole, hmessages⟩ :=
    next_message h hi hms hdelivered hview hcomplete
  obtain ⟨hinv, htake⟩ := takeMessage_stands h hi hgs hwhole
  obtain ⟨t', hsteps, hstands⟩ := afterRecv_receives htake hinv hfew full
  rw [(merge_whole hwhole hgs).1]
  exact ⟨gs.length, t', hinv, hsteps, hstands, hmessages⟩

end IKCPCB

end

end LuaServer
