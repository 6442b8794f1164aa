import Mumble.Voice.Provenance

/-!
What the checks of positions (`pos_spoof` and `pos_far_cheat`) have to go by.
-/

namespace Mumble

open Mumble.Lib

-- The places that are kept, and the count of returns that the panel shows.
structure AcStats.Places (a : AcStats) : Prop where
  few : a.posHist.length ≤ POS_HIST_CAP
  jumps : a.posJumps = UInt32.ofNat (a.posHist.filter Place.isReturn).length

theorem AcStats.Places.notePlace {a : AcStats} (h : a.Places) (ac : AnticheatConfig)
    (now : Instant) (x y z : Float32) : (ac.notePlace now x y z a).Places := by
  unfold AnticheatConfig.notePlace
  dsimp only
  split_ifs
  · exact h
  · exact h
  · refine ⟨(List.length_filter_le ..).trans ?_, rfl⟩
    rw [List.length_drop]
    omega

-- What is recorded of a client beside its places.
theorem AnticheatConfig.places_recordTargets (ac : AnticheatConfig) (now : Instant)
    (keys : List UInt64) (a : AcStats) :
    (ac.recordTargets now keys a).hasPos = a.hasPos ∧
      (ac.recordTargets now keys a).posHist = a.posHist ∧
      (ac.recordTargets now keys a).posJumps = a.posJumps := by
  unfold recordTargets
  dsimp only
  split_ifs <;> exact ⟨rfl, rfl, rfl⟩

theorem AnticheatConfig.places_noteEmission (ac : AnticheatConfig) (recipients : UInt32)
    (a : AcStats) :
    (ac.noteEmission recipients a).hasPos = a.hasPos ∧
      (ac.noteEmission recipients a).posHist = a.posHist ∧
      (ac.noteEmission recipients a).posJumps = a.posJumps := by
  unfold noteEmission
  split_ifs <;> exact ⟨rfl, rfl, rfl⟩

theorem Deed.places_cases (c : Client) (d : Deed) :
    (∃ ac now x y z, d = .Position ac now x y z) ∨
    (∃ ac limits now active me m, d = .Charge ac limits now active me m) ∨ d = .Reset ∨
    (d.apply c).ac.hasPos = c.ac.hasPos ∧ (d.apply c).ac.posHist = c.ac.posHist ∧
      (d.apply c).ac.posJumps = c.ac.posJumps := by
  cases d with
  | Position ac now x y z => exact .inl ⟨ac, now, x, y, z, rfl⟩
  | Charge ac limits now active me m => exact .inr (.inl ⟨ac, limits, now, active, me, m, rfl⟩)
  | Reset => exact .inr (.inr (.inl rfl))
  | Record ac now keys => exact .inr (.inr (.inr (ac.places_recordTargets now keys c.ac)))
  | Emission ac recipients => exact .inr (.inr (.inr (ac.places_noteEmission recipients c.ac)))
  | _ => exact .inr (.inr (.inr ⟨rfl, rfl, rfl⟩))

theorem not_pos_and_le_zero (n : UInt32) : (decide (0 < n) && decide (n ≤ 0)) = false := by
  rw [Bool.and_eq_false_iff, decide_eq_false_iff_not, decide_eq_false_iff_not, UInt32.not_le]
  exact (em (0 < n)).symm

namespace Sampler

variable {channels : ChannelMap} {snaps : List Snap} {me : Snap} {ac : AnticheatConfig}
  {limits : Limits} {now : Instant}

theorem posOsc_measure_le (h : me.c.ac.Places) :
    (measure channels snaps me ac limits now).posOsc.toNat ≤ POS_HIST_CAP := by
  have hfew : ((me.posHist now).filter Place.isReturn).length ≤ POS_HIST_CAP :=
    (List.length_filter_le ..).trans ((List.length_filter_le ..).trans h.few)
  have hcap : POS_HIST_CAP < 2 ^ 32 := by decide
  rw [measure, UInt32.toNat_ofNat_of_lt' (Nat.lt_of_le_of_lt hfew hcap)]
  exact hfew

-- No position was ever recorded.
theorem measure_unplaced (hpos : me.c.ac.hasPos = false) (hhist : me.c.ac.posHist = []) :
    (measure channels snaps me ac limits now).posOsc = 0 ∧
      (measure channels snaps me ac limits now).far = 0 := by
  have hnowhere : me.position now = none := by
    rw [Snap.position, hpos]
    exact if_neg fun h => (nomatch h.1)
  constructor
  · simp only [measure, Snap.posHist, hhist]
    rfl
  · simp only [measure, farTargets, hnowhere]

end Sampler

namespace ServerState

variable {s : ServerState} {course : List Occurrence} {limits : Limits} {now : Instant} {me : Snap}
  {m : Measures} {removePositionalData : Bool} {anticheat : AnticheatConfig} {bans : BanList}

theorem places_run (hrun : Run Occurs (.new removePositionalData anticheat bans) course s)
    (q : ClientRef) : (s.get q).ac.Places := by
  refine run_kept (I := fun _ _ c => c.ac.Places) ?_ (fun _ hc => hc) (fun _ hc => hc) ?_ hrun q
  · rintro course q c ⟨username, session, key, peerIp, write, now, mute, rfl⟩
    exact ⟨Nat.zero_le _, rfl⟩
  · intro course s o q c d _ hs hd hc
    rcases d.places_cases c with ⟨ac, now, x, y, z, rfl⟩ | ⟨ac, settings, time, active, me, m, rfl⟩ |
      rfl | ⟨-, hhist, hjumps⟩
    · unfold Deed.apply AnticheatConfig.notePosition
      dsimp only
      split
      · exact hc
      · refine AcStats.Places.notePlace ?_ ac now x y z
        exact ⟨hc.few, hc.jumps⟩
    · cases o with
      | Event l => exact absurd hd id
      | Sample limits now =>
          obtain ⟨-, -, rfl, -, rfl, hmem⟩ := hd
          obtain ⟨-, -, -, rfl⟩ := mem_sample.mp hmem
          exact ⟨(List.length_filter_le ..).trans (hs q).few, rfl⟩
    · exact ⟨Nat.zero_le _, rfl⟩
    · exact ⟨hhist ▸ hc.few, hjumps.trans (hhist ▸ hc.jumps)⟩

-- At most sixteen returns are ever counted. A limit above that switches the check off.
theorem pos_spoof_silent (hrun : Run Occurs (.new removePositionalData anticheat bans) course s)
    (hmem : (me, m) ∈ (s.sample limits now).2) :
    m.posOsc ≤ 16 ∧ (16 < limits.posOscMax → m.posSpoof limits = false) := by
  have hme : me.c = s.get me.ref := congrArg Snap.c (snap_of_mem_sample hmem)
  have hplaces : me.c.ac.Places := by
    rw [hme]
    exact places_run hrun me.ref
  obtain ⟨-, -, -, rfl⟩ := mem_sample.mp hmem
  have hmost : (Sampler.measure s.channels s.snaps me s.anticheat limits now).posOsc ≤ 16 :=
    UInt32.le_iff_toNat_le.mpr (Sampler.posOsc_measure_le hplaces)
  refine ⟨hmost, fun hlimit => ?_⟩
  rw [Measures.posSpoof, Bool.and_eq_false_iff]
  right
  exact decide_eq_false (UInt32.not_le.mpr (UInt32.lt_of_le_of_lt hmost hlimit))

theorem exists_measured {r : ClientRef} (limits : Limits) (now : Instant)
    (henabled : s.anticheat.enabled = true) (hactive : Sampler.active s.snaps ≠ 0)
    (hthere : r ∈ s.clients.values) : ∃ m, (Snap.new r (s.get r), m) ∈ (s.sample limits now).2 :=
  ⟨_, mem_sample.mpr ⟨henabled, hactive, List.mem_map_of_mem hthere, rfl⟩⟩

-- A client that speaks from two places in turn, a kilometre apart.
def sampleJumps : List (Instant × Event) :=
  let place (i : Nat) : List UInt8 := if i % 2 = 0 then [0, 0, 0, 0] else [0, 0, 0x7A, 0x44]
  sampleClients ++ (List.range 18).map fun i =>
    (0, .Tcp 0 (.UDPTunnel ([0x80, 0, 1, 7] ++ place i ++ List.replicate 8 0)))

theorem run_sampleJumps :
    Run Occurs sampleServer (sampleServer.courseOf sampleJumps) (sampleServer.afterAll sampleJumps) := by
  refine run_courseOf ?_
  simp [sampleJumps, sampleClients]

-- After the first two it returns each time, and the last sixteen are counted.
theorem pos_spoof_silent_sample :
    ∃ m, (Snap.new 0 ((sampleServer.afterAll sampleJumps).get 0), m) ∈
        ((sampleServer.afterAll sampleJumps).sample { sampleLimits with posOscMax := 17 } 0).2 ∧
      m.posOsc = 16 ∧ m.posSpoof { sampleLimits with posOscMax := 17 } = false := by
  have hmem : (Snap.new 0 ((sampleServer.afterAll sampleJumps).get 0), _) ∈
      ((sampleServer.afterAll sampleJumps).sample { sampleLimits with posOscMax := 17 } 0).2 :=
    mem_sample.mpr ⟨by decide +kernel, by decide +kernel,
      List.mem_map_of_mem (a := 0) (by decide +kernel), rfl⟩
  exact ⟨_, hmem, by decide +kernel, (pos_spoof_silent run_sampleJumps hmem).2 (by decide)⟩

-- A position is recorded only of what the event passes on, and that has none left.
theorem unplaced_run (hrun : Run Occurs (.new true anticheat bans) course s) (q : ClientRef) :
    (s.get q).ac.hasPos = false ∧ (s.get q).ac.posHist = [] := by
  refine run_kept (I := fun _ _ c => c.ac.hasPos = false ∧ c.ac.posHist = []) ?_ (fun _ hc => hc)
    (fun _ hc => hc) ?_ hrun q
  · rintro course q c ⟨username, session, key, peerIp, write, now, mute, rfl⟩
    exact ⟨rfl, rfl⟩
  · intro course s o q c d hrun hs hd hc
    rcases d.places_cases c with ⟨ac, now, x, y, z, rfl⟩ | ⟨ac, settings, time, active, me, m, rfl⟩ |
      rfl | ⟨hpos, hhist, -⟩
    · cases o with
      | Sample limits now => exact absurd hd id
      | Event l =>
          obtain ⟨-, -, packet, hpasses, hsome⟩ := hd
          have hsaid := hpasses.said hrun (allAccounted_run hrun q)
          rw [hsaid.position (sound_new true anticheat bans) rfl] at hsome
          cases hsome
    · cases o with
      | Event l => exact absurd hd id
      | Sample limits now =>
          obtain ⟨-, -, -, -, rfl, -⟩ := hd
          have hnone : (Snap.new q (s.get q)).posHist time = [] := by
            rw [Snap.posHist, Snap.new, (hs q).2]
            rfl
          exact ⟨hc.1, hnone⟩
    · exact ⟨hc.1, rfl⟩
    · exact ⟨hpos.trans hc.1, hhist.trans hc.2⟩

-- On a server that strips positions the checks of positions see nothing.
theorem positions_unseen (hrun : Run Occurs (.new true anticheat bans) course s)
    (hmem : (me, m) ∈ (s.sample limits now).2) :
    m.posSpoof limits = false ∧ m.posFarCheat limits = false ∧
      ∀ active, m.suspicious limits active = (m.talkCheat limits active || m.spy limits) := by
  have hunplaced := unplaced_run hrun me.ref
  have hme : me.c = s.get me.ref := congrArg Snap.c (snap_of_mem_sample hmem)
  rw [← hme] at hunplaced
  obtain ⟨-, -, -, rfl⟩ := mem_sample.mp hmem
  obtain ⟨hosc, hfar⟩ := Sampler.measure_unplaced hunplaced.1 hunplaced.2
  have hspoof : (Sampler.measure s.channels s.snaps me s.anticheat limits now).posSpoof limits = false := by
    rw [Measures.posSpoof, hosc]
    exact not_pos_and_le_zero _
  have hcheat : (Sampler.measure s.channels s.snaps me s.anticheat limits now).posFarCheat limits =
      false := by
    rw [Measures.posFarCheat, Measures.outOfRange, hfar, not_pos_and_le_zero, Bool.false_and,
      Bool.false_and]
  refine ⟨hspoof, hcheat, fun active => ?_⟩
  rw [Measures.suspicious, hspoof, hcheat, Bool.or_false, Bool.or_false]

theorem positions_unseen_sample :
    ∃ m, (Snap.new 0 ((sampleStripping.afterAll samplePositioned).get 0), m) ∈
        ((sampleStripping.afterAll samplePositioned).sample sampleLimits 0).2 ∧
      m.posSpoof sampleLimits = false ∧ m.posFarCheat sampleLimits = false := by
  obtain ⟨m, hmem⟩ : ∃ m, (Snap.new 0 ((sampleStripping.afterAll samplePositioned).get 0), m) ∈
      ((sampleStripping.afterAll samplePositioned).sample sampleLimits 0).2 :=
    exists_measured _ 0 (by decide +kernel) (by decide +kernel) (by decide +kernel)
  obtain ⟨hspoof, hfar, -⟩ := positions_unseen run_samplePositioned hmem
  exact ⟨m, hmem, hspoof, hfar⟩

end ServerState

end Mumble
