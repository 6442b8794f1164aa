import Mumble.Sampler.Chunking

/-!
The number that the sampler stores for the targets of a client within the window.
-/

namespace Mumble

open Mumble.Lib

namespace Record

variable {r : ClientRef} {w w' : Record} {occurs : Occurrence} {course : List Occurrence}
  {limits : Limits} {now : Instant} {l : Label}

-- The anticheat is switched on, its window stays as it is, and nobody sets back the counters of
-- the client.
def Quiet (r : ClientRef) (w : Record) : Occurrence → Prop
  | .Event l => w.server.anticheat.enabled = true ∧ ¬w.server.Disturbs r l.event
  | .Sample _ _ => True

def QuietStep (r : ClientRef) (w : Record) (occurs : Occurrence) (w' : Record) : Prop :=
  w.Step r occurs w' ∧ w.Quiet r occurs

-- The window has what was registered and nothing else.
structure Exact (r : ClientRef) (w : Record) : Prop where
  remembers : w.Remembers r
  kept : w.kept = w.registered
  only : Only w.seen (w.times r)

theorem of_times_sample (hsound : w.server.registry.Sound) {k : UInt64} {t : Instant}
    (h : ((w.server.sample limits now).1.get r).ac.window.lookup k = some t) :
    w.times r k = some t := by
  rcases window_sample hsound with hwindow | hwindow
  · rw [hwindow] at h
    exact (lookup_retain.mp h).1
  · rw [hwindow] at h
    exact h

theorem of_lookup_recordTargets {ac : AnticheatConfig} {keys : List UInt64} {c : AcStats}
    {k : UInt64} {t : Instant} (h : (ac.recordTargets now keys c).window.lookup k = some t) :
    k ∈ keys ∧ t = now ∨ c.window.lookup k = some t := by
  unfold AnticheatConfig.recordTargets at h
  split_ifs at h
  · exact .inr h
  · have hstamped := (lookup_retain.mp h).1
    rw [lookup_stamp] at hstamped
    split_ifs at hstamped with hk
    · exact .inl ⟨hk, (Option.some.inj hstamped).symm⟩
    · exact .inr hstamped

theorem kept_event (h : w.kept = w.registered) (hstep : w.Step r (.Event l) w')
    (hquiet : w.Quiet r (.Event l)) :
    w'.kept = w.server.registers r l ++ w.kept ∧ w'.kept = w'.registered := by
  obtain ⟨-, -, -, -, hregistered, hkept⟩ := hstep
  rw [if_pos hquiet.1, if_neg hquiet.2] at hkept
  exact ⟨hkept, by rw [hkept, hregistered, h]⟩

theorem only_event (hsound : w.server.registry.Sound) (h : Only w.seen (w.times r))
    (hstep : w.Step r (.Event l) w') (hquiet : ¬w.server.Disturbs r l.event)
    (hkept : w'.kept = w.server.registers r l ++ w.kept) : Only w'.seen (w'.times r) := by
  obtain ⟨-, htransition, -⟩ := hstep
  by_cases hregisters : w.server.Registers r l.event
  · obtain ⟨message, hevent, hrun, hvalid⟩ := hregisters
    rw [times_registered htransition hevent hrun hvalid, seen, hkept,
      ServerState.registers_of hevent hrun hvalid, List.map_append, seen_registered]
    exact h.add fun k t ht => of_lookup_recordTargets ht
  · rw [ServerState.registers_of_not hregisters, List.nil_append] at hkept
    rw [seen, hkept]
    rcases ServerState.notes_transition hsound.indexed htransition hregisters
      fun hreset => hquiet (.inl hreset) with hsame | ⟨-, hempty⟩
    · have hwindow : (w'.server.get r).ac.window = (w.server.get r).ac.window :=
        congrArg Notes.window hsame
      refine h.prune fun k t ht => ?_
      rw [times, hwindow] at ht
      exact ht
    · have hwindow : (w'.server.get r).ac.window = ∅ := congrArg Notes.window hempty
      refine h.prune fun k t ht => ?_
      rw [times, hwindow, AList.lookup_empty] at ht
      cases ht

theorem exact_run {removePositionalData : Bool} {anticheat : AnticheatConfig} {bans : BanList}
    {start : Instant}
    (hrun : Run (QuietStep r) ⟨.new removePositionalData anticheat bans, start, [], []⟩ course w) :
    w.server.registry.Sound ∧ w.Exact r :=
  hrun.invariant (I := fun w => w.server.registry.Sound ∧ w.Exact r) (P := fun _ => True)
    (fun {w occurs w'} _ hw hstep => by
      obtain ⟨hsound, hexact⟩ := hw
      obtain ⟨hstep, hquiet⟩ := hstep
      cases occurs with
      | Event l =>
          have hfollows := ServerState.step_follows hsound.counted hstep.2.1.step
          obtain ⟨hkept, hboth⟩ := kept_event hexact.kept hstep hquiet
          refine ⟨hfollows.invariant (fun _ hg hop => hg.step hop) hsound, ?_, hboth, ?_⟩
          · exact remembers_event hsound hexact.remembers hfollows.next_le hstep
          · exact only_event hsound hexact.only hstep hquiet.2 hkept
      | Sample limits now =>
          obtain ⟨hclock, rfl⟩ := hstep
          refine ⟨ServerState.follows_sample.invariant (fun _ hg hop => hg.step hop) hsound, ?_,
            hexact.kept, ?_⟩
          · exact remembers_sample hsound hexact.remembers hclock
          · exact hexact.only.prune fun k t ht => of_times_sample hsound ht)
    (fun _ _ => trivial)
    ⟨ServerState.sound_new removePositionalData anticheat bans, ⟨.nil, fun _ => rfl⟩, rfl,
      fun k t ht => by cases ht⟩

-- What the client registered since the window began. A window of no seconds is one of one
-- second here; the settings cannot be given one.
def counted (w : Record) (now : Instant) : Finset Target :=
  ((w.registered.filter fun e => now - e.1 ≤ w.server.anticheat.span).map fun e => e.2).toFinset

theorem mem_counted {x : Target} :
    x ∈ w.counted now ↔ ∃ t, (t, x) ∈ w.registered ∧ now - t ≤ w.server.anticheat.span := by
  simp [counted]

theorem length_window (h : w.Exact r) (hclock : w.clock ≤ now) :
    ((Snap.new r (w.server.get r)).window w.server.anticheat now).entries.length =
      (w.counted now).card := by
  have hkeys : ((Snap.new r (w.server.get r)).window w.server.anticheat now).keys.toFinset =
      (w.counted now).image Target.key := by
    ext k
    have hfound : k ∈ (Snap.new r (w.server.get r)).window w.server.anticheat now ↔
        ∃ t, w.times r k = some t ∧ now - t ≤ w.server.anticheat.span := by
      rw [HashIndex.mem_iff_lookup]
      refine exists_congr fun t => ?_
      rw [Snap.window, lookup_retain, decide_eq_true_eq]
      rfl
    rw [List.mem_toFinset, ← AList.mem_keys, hfound, h.remembers.1.find_iff h.only hclock,
      Finset.mem_image]
    constructor
    · rintro ⟨_, hseen, hnow⟩
      obtain ⟨⟨t, x⟩, he, heq⟩ := List.mem_map.mp hseen
      cases heq
      exact ⟨x, mem_counted.mpr ⟨t, h.kept ▸ he, hnow⟩, rfl⟩
    · rintro ⟨x, hx, rfl⟩
      obtain ⟨t, he, hnow⟩ := mem_counted.mp hx
      exact ⟨t, List.mem_map.mpr ⟨(t, x), h.kept ▸ he, rfl⟩, hnow⟩
  calc ((Snap.new r (w.server.get r)).window w.server.anticheat now).entries.length
    _ = ((Snap.new r (w.server.get r)).window w.server.anticheat now).keys.length :=
      (List.length_map ..).symm
    _ = ((Snap.new r (w.server.get r)).window w.server.anticheat now).keys.toFinset.card :=
      (List.toFinset_card_of_nodup (AList.keys_nodup _)).symm
    _ = (w.counted now).card := by
      rw [hkeys, Finset.card_image_of_injective _ Target.key_injective]

theorem toNat_reachWindow {me : Snap} {m : Measures} (h : w.Exact r) (hclock : w.clock ≤ now)
    (hme : (me, m) ∈ (w.server.sample limits now).2) (hr : me.ref = r) :
    m.reachWindow.toNat = (w.counted now).card % 2 ^ 32 := by
  subst hr
  obtain ⟨-, -, hsnap, hm⟩ := ServerState.mem_sample.mp hme
  obtain ⟨q, -, rfl⟩ := List.mem_map.mp hsnap
  have hwindow : m.reachWindow =
      UInt32.ofNat ((Snap.new q (w.server.get q)).window w.server.anticheat now).entries.length := by
    rw [hm]
    rfl
  rw [hwindow, UInt32.toNat_ofNat']
  exact congrArg (· % 2 ^ 32) (length_window h hclock)

theorem quietStep_after {e : Event} (henabled : w.server.anticheat.enabled = true)
    (h : w.server.outcome now e = some (.ok ())) (hplain : e.isPlain = true)
    (hclock : w.clock ≤ now) : w.QuietStep r (.Event ⟨now, e, .ok ()⟩) (after r w now e) :=
  ⟨step_after h hplain hclock, henabled, not_disturbs_plain hplain⟩

-- A client that targets one session after the other, in one message each.

theorem step_voiceTarget {s : ServerState} (now : Instant) {message : VoiceTargetMessage}
    (hrun : s.loops r .Tcp = true) (hvalid : message.Valid) :
    s.step now (.Tcp r (.VoiceTarget message)) = .ok ((s.handleVoiceTarget r now message).1, .ok ()) := by
  have hresult : (s.handleVoiceTarget r now message).2 = .ok () := by
    obtain ⟨slot, hslot⟩ := ServerState.getTarget_of_valid hvalid (s.get r)
    rw [VoiceTargetMessage.slot] at hslot
    unfold ServerState.handleVoiceTarget
    dsimp only
    rw [if_neg hvalid, hslot]
  change s.readFrame r now (.VoiceTarget message) = _
  rw [ServerState.readFrame, if_pos hrun]
  change Except.ok ((s.handleVoiceTarget r now message).1.countFailure r .Tcp
    (s.handleVoiceTarget r now message).2, (s.handleVoiceTarget r now message).2) = _
  rw [hresult]
  rfl

theorem clients_handleVoiceTarget (s : ServerState) (message : VoiceTargetMessage) :
    (s.handleVoiceTarget r now message).1.clients = s.clients := by
  unfold ServerState.handleVoiceTarget
  dsimp only
  split_ifs
  · rfl
  · split <;> rfl

theorem loops_handleVoiceTarget (s : ServerState) (message : VoiceTargetMessage) :
    (s.handleVoiceTarget r now message).1.loops r .Tcp = s.loops r .Tcp := by
  unfold ServerState.handleVoiceTarget
  dsimp only
  split_ifs
  · rfl
  · split
    · rfl
    · simp only [ServerState.loops, ServerState.get_modify_self]
      rfl

def aim (i : Nat) : VoiceTargetMessage := ⟨some 1, [⟨[UInt32.ofNat i], none⟩]⟩

theorem valid_aim (i : Nat) : (aim i).Valid := by
  change ¬((1 : UInt32) < 1 ∨ (1 : UInt32) ≥ 31)
  decide

-- The two clients, and the messages of the first.
def flood : Nat → Record
  | 0 => (ServerState.sampleClients.map fun e => e.2).foldl (fun w e => after 0 w 0 e)
      ⟨ServerState.sampleServer, 0, [], []⟩
  | n + 1 => after 0 (flood n) 0 (.Tcp 0 (.VoiceTarget (aim n)))

structure Flooded (n : Nat) (w : Record) : Prop where
  run : ∃ course, Run (QuietStep 0) ⟨ServerState.sampleServer, 0, [], []⟩ course w
  clock : w.clock = 0
  loops : w.server.loops 0 .Tcp = true
  anticheat : w.server.anticheat = ServerState.sampleServer.anticheat
  clients : w.server.clients = (flood 0).server.clients
  registered : w.registered =
    (List.range n).reverse.map fun i => (0, Target.Session (UInt32.ofNat i))

theorem flooded (n : Nat) : Flooded n (flood n) := by
  induction n with
  | zero =>
      refine ⟨⟨_, .Step (quietStep_after ?_ ?_ rfl (Nat.le_refl _))
        (.Step (quietStep_after ?_ ?_ rfl (Nat.le_refl _)) (.Done _))⟩, rfl, ?_, ?_, rfl, ?_⟩ <;>
        decide +kernel
  | succ n ih =>
      obtain ⟨course, hrun⟩ := ih.run
      have hstep := step_voiceTarget 0 ih.loops (valid_aim n)
      have hafter : (flood (n + 1)).server =
          ((flood n).server.handleVoiceTarget 0 0 (aim n)).1 := ServerState.after_ok hstep
      have houtcome : (flood n).server.outcome 0 (.Tcp 0 (.VoiceTarget (aim n))) = some (.ok ()) := by
        unfold ServerState.outcome
        rw [hstep]
      have henabled : (flood n).server.anticheat.enabled = true := by
        rw [ih.anticheat]
        rfl
      refine ⟨⟨_, hrun.append (.single (quietStep_after henabled houtcome rfl ih.clock.le))⟩, rfl, ?_, ?_,
        ?_, ?_⟩
      · rw [hafter, loops_handleVoiceTarget]
        exact ih.loops
      · rw [hafter, ServerState.anticheat_handleVoiceTarget, ih.anticheat]
      · rw [hafter, clients_handleVoiceTarget, ih.clients]
      · have hregisters : (flood n).server.registers 0
            ⟨0, .Tcp 0 (.VoiceTarget (aim n)), .ok ()⟩ = [(0, .Session (UInt32.ofNat n))] :=
          ServerState.registers_of rfl ih.loops (valid_aim n)
        change (flood n).server.registers 0 _ ++ (flood n).registered = _
        rw [hregisters, ih.registered, List.range_succ, List.reverse_append]
        rfl

theorem card_counted_flood {n : Nat} (hn : n ≤ 2 ^ 32) : ((flood n).counted 0).card = n := by
  have hcounted : (flood n).counted 0 =
      (Finset.range n).image fun i => Target.Session (UInt32.ofNat i) := by
    ext x
    rw [mem_counted, (flooded n).registered, Finset.mem_image]
    simp
  rw [hcounted, Finset.card_image_of_injOn, Finset.card_range]
  intro i hi j hj heq
  have hi : i < n := Finset.mem_range.mp hi
  have hj : j < n := Finset.mem_range.mp hj
  have hnat := congrArg UInt32.toNat (Target.Session.inj heq)
  rwa [UInt32.toNat_ofNat_of_lt' (Nat.lt_of_lt_of_le hi hn),
    UInt32.toNat_ofNat_of_lt' (Nat.lt_of_lt_of_le hj hn)] at hnat

theorem Flooded.sampled {n : Nat} (h : Flooded n w) :
    ∃ m, (Snap.new 0 (w.server.get 0), m) ∈ (w.server.sample ServerState.sampleLimits 0).2 := by
  have hsnap : Snap.new 0 (w.server.get 0) ∈ w.server.snaps := by
    refine List.mem_map_of_mem ?_
    rw [h.clients]
    decide +kernel
  have hactive : Sampler.active w.server.snaps ≠ 0 := by
    rw [Sampler.active, ServerState.snaps, List.length_map, h.clients]
    decide +kernel
  have henabled : w.server.anticheat.enabled = true := by
    rw [h.anticheat]
    rfl
  exact ⟨_, ServerState.mem_sample.mpr ⟨henabled, hactive, hsnap, rfl⟩⟩

-- The number of targets of the last `window_secs` is stored as a number of 32 bits.
theorem reachWindow_counts {removePositionalData : Bool} {anticheat : AnticheatConfig}
    {bans : BanList} {start : Instant} {me : Snap} {m : Measures}
    (hrun : Run (QuietStep r) ⟨.new removePositionalData anticheat bans, start, [], []⟩ course w)
    (hclock : w.clock ≤ now) (hme : (me, m) ∈ (w.server.sample limits now).2) (hr : me.ref = r) :
    m.reachWindow.toNat = (w.counted now).card % 2 ^ 32 :=
  toNat_reachWindow (exact_run hrun).2 hclock hme hr

theorem reachWindow_counts_three :
    ∃ course w me m, Run (QuietStep 0) ⟨ServerState.sampleServer, 0, [], []⟩ course w ∧
      (me, m) ∈ (w.server.sample ServerState.sampleLimits 0).2 ∧
      (w.counted 0).card = 3 ∧ m.reachWindow.toNat = 3 := by
  have hflooded := flooded 3
  have hcard : ((flood 3).counted 0).card = 3 := card_counted_flood (by decide)
  obtain ⟨course, hrun⟩ := hflooded.run
  obtain ⟨m, hm⟩ := hflooded.sampled
  have hstored := reachWindow_counts hrun hflooded.clock.le hm rfl
  rw [hcard] at hstored
  exact ⟨course, _, _, m, hrun, hm, hcard, hstored⟩

-- With all 2^32 sessions targeted the number that is stored is zero.
theorem reachWindow_wraps :
    ∃ course w me m, Run (QuietStep 0) ⟨ServerState.sampleServer, 0, [], []⟩ course w ∧
      (me, m) ∈ (w.server.sample ServerState.sampleLimits 0).2 ∧ me.ref = 0 ∧
      (w.counted 0).card = 2 ^ 32 ∧ m.reachWindow = 0 := by
  have hflooded := flooded (2 ^ 32)
  have hcard := card_counted_flood (Nat.le_refl (2 ^ 32))
  generalize flood (2 ^ 32) = w at hflooded hcard
  obtain ⟨course, hrun⟩ := hflooded.run
  obtain ⟨m, hm⟩ := hflooded.sampled
  refine ⟨course, w, _, m, hrun, hm, rfl, hcard, ?_⟩
  have hstored := toNat_reachWindow (exact_run hrun).2 hflooded.clock.le hm rfl
  rw [hcard, Nat.mod_self] at hstored
  exact UInt32.toNat_inj.mp hstored

end Record

end Mumble
