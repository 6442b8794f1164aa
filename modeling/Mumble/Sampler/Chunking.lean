import Mumble.Lib.Seen
import Mumble.Sampler.Cycles
import Mumble.Sampler.Reach
import Mumble.Targets

/-!
Talkers who change their targets quickly. What a client targets is put into a window, and
the sampler looks at how many targets are in it.
-/

namespace Mumble

open Mumble.Lib

theorem lookup_stamp {κ : Type} [DecidableEq κ] {m : HashIndex κ Instant} {k : κ} (keys : List κ)
    (now : Instant) :
    (keys.foldl (fun w k => AList.insert k now w) m).lookup k =
      if k ∈ keys then some now else m.lookup k := by
  induction keys generalizing m with
  | nil => rfl
  | cons first keys ih =>
      rw [List.foldl_cons, ih]
      by_cases hk : k ∈ keys
      · rw [if_pos hk, if_pos (List.mem_cons_of_mem _ hk)]
      · rw [if_neg hk]
        by_cases hfirst : k = first
        · subst hfirst
          rw [AList.lookup_insert, if_pos List.mem_cons_self]
        · rw [AList.lookup_insert_ne hfirst, if_neg (by simp [hfirst, hk])]

theorem VoiceTargetMessage.keys_eq (message : VoiceTargetMessage) :
    message.keys = message.registers.map Target.key := by
  rw [keys, ServerState.fillTarget_eq]
  rfl

instance (message : VoiceTargetMessage) : Decidable message.Valid := inferInstanceAs (Decidable (¬_))

-- How long something stays in the window.
def AnticheatConfig.span (ac : AnticheatConfig) : Nat := max ac.windowSecs.toNat 1 * NANOS

namespace ServerState

variable {s s' : ServerState} {r : ClientRef} {l : Label}

-- What a client registers with an event.
def registers (s : ServerState) (r : ClientRef) (l : Label) : List (Instant × Target) :=
  match l.event with
  | .Tcp q (.VoiceTarget message) =>
      if q = r ∧ s.loops q .Tcp = true ∧ message.Valid then message.registers.map fun x => (l.now, x)
      else []
  | _ => []

-- The window of a client is emptied, or other things are kept in it from now on.
def Disturbs (s : ServerState) (r : ClientRef) (e : Event) : Prop :=
  s.Resets r e ∨ ∃ config, e = .Admin (.PostAnticheatConfig config) ∧
    config.windowSecs ≠ s.anticheat.windowSecs

theorem registers_of_not (h : ¬s.Registers r l.event) : s.registers r l = [] := by
  unfold registers
  split
  · rename_i q message hevent
    refine if_neg ?_
    rintro ⟨rfl, hrun, hvalid⟩
    exact h ⟨message, hevent, hrun, hvalid⟩
  · rfl

theorem registers_of {message : VoiceTargetMessage} (hevent : l.event = .Tcp r (.VoiceTarget message))
    (hrun : s.loops r .Tcp = true) (hvalid : message.Valid) :
    s.registers r l = message.registers.map fun x => (l.now, x) := by
  unfold registers
  rw [hevent]
  exact if_pos ⟨rfl, hrun, hvalid⟩

theorem windowSecs_transition (hindexed : s.registry.Indexed) (h : s.Transition l s')
    (hquiet : ¬s.Disturbs r l.event) :
    s'.anticheat.windowSecs = s.anticheat.windowSecs := by
  by_cases hconfig : ∃ config, l.event = .Admin (.PostAnticheatConfig config)
  · obtain ⟨config, hevent⟩ := hconfig
    have hstep := h.step
    rw [hevent] at hstep
    have hs' : s' = { s with anticheat := config } :=
      (congrArg Prod.fst (Except.ok.inj hstep)).symm
    rw [hs']
    by_contra hne
    exact hquiet (.inr ⟨config, hevent, hne⟩)
  · rw [anticheat_step hindexed h.step fun config hevent => hconfig ⟨config, hevent⟩]

section Sampled

variable {limits : Limits} {now : Instant} {me : Snap} {m : Measures}

-- Nobody whom it reaches targets it back.
theorem mutuality_of_none (hindexed : s.registry.Indexed) (hme : me ∈ s.snaps)
    (hback : ∀ o ∈ s.snaps, o.ref ≠ me.ref → o.targets me = false)
    (hreached : Sampler.reached s.channels me ≠ ∅) : Sampler.mutuality s.channels s.snaps me = 0 := by
  have hnone : ((Sampler.reached s.channels me).filter fun session =>
      Sampler.isMutual s.snaps me session) = ∅ := by
    rw [Finset.filter_eq_empty_iff]
    intro x hx hmutual
    obtain ⟨o, ho, hsession, htargets⟩ :=
      (Snapshot.isMutual_iff (t := s.snapshot hindexed)).mp hmutual
    have hne : o.ref ≠ me.ref := by
      intro hsame
      obtain ⟨q, -, rfl⟩ := List.mem_map.mp ho
      obtain ⟨r, -, rfl⟩ := List.mem_map.mp hme
      have hqr : q = r := hsame
      subst hqr
      exact (mem_reached_iff.mp hx).1 hsession.symm
    exact Bool.false_ne_true ((hback o ho hne).symm.trans htargets)
  unfold Sampler.mutuality
  rw [if_neg hreached, hnone]
  simp

theorem lowMutuality_iff_reached (hindexed : s.registry.Indexed) (hme : me ∈ s.snaps)
    (hm : m = Sampler.measure s.channels s.snaps me s.anticheat limits now)
    (hback : ∀ o ∈ s.snaps, o.ref ≠ me.ref → o.targets me = false) :
    m.lowMutuality limits = true ↔ Sampler.reached s.channels me ≠ ∅ := by
  have hmutuality : m.mutuality = Sampler.mutuality s.channels s.snaps me := by rw [hm]; rfl
  unfold Measures.lowMutuality
  rw [hmutuality]
  by_cases hreached : Sampler.reached s.channels me = ∅
  · rw [Sampler.mutuality, if_pos hreached]
    simp [hreached]
  · rw [mutuality_of_none hindexed hme hback hreached]
    simp [hreached]

end Sampled

end ServerState

-- A run of the server and the sampler, with what a client registered and when, and what
-- of that should be in its window.
structure Record where
  server : ServerState
  clock : Instant
  registered : List (Instant × Target)
  kept : List (Instant × Target)

namespace Record

variable {r : ClientRef} {w w' : Record} {occurs : Occurrence} {course : List Occurrence} {limits : Limits}
  {now : Instant} {l : Label}

open Classical in
def Step (r : ClientRef) (w : Record) (occurs : Occurrence) (w' : Record) : Prop :=
  match occurs with
  | .Event l => w.clock ≤ l.now ∧ w.server.Transition l w'.server ∧
      (∀ q reason, l.event ≠ .Flag q reason) ∧ w'.clock = l.now ∧
      w'.registered = w.server.registers r l ++ w.registered ∧
      -- nothing is noted while the anticheat is switched off
      w'.kept = (if w.server.anticheat.enabled then w.server.registers r l else []) ++
        if w.server.Disturbs r l.event then [] else w.kept
  | .Sample limits now => w.clock ≤ now ∧
      w' = { w with server := (w.server.sample limits now).1, clock := now }

def seen (w : Record) : List (Instant × UInt64) := w.kept.map fun e => (e.1, e.2.key)

def times (w : Record) (r : ClientRef) (k : UInt64) : Option Instant :=
  (w.server.get r).ac.window.lookup k

def Remembers (r : ClientRef) (w : Record) : Prop :=
  Covers w.server.anticheat.span w.clock w.seen (w.times r) ∧ (w.server.next ≤ r → w.kept = [])

-- An evaluation of the client drops what is too old, and those of others change nothing.
theorem window_sample (hsound : w.server.registry.Sound) :
    ((w.server.sample limits now).1.get r).ac.window =
        (Snap.new r (w.server.get r)).window w.server.anticheat now ∨
      ((w.server.sample limits now).1.get r).ac.window = (w.server.get r).ac.window := by
  by_cases hr : r ∈ (w.server.sample limits now).2.map fun e => e.1.ref
  · obtain ⟨⟨me, m⟩, hme, rfl⟩ := List.mem_map.mp hr
    obtain ⟨-, -, hsnap, -⟩ := ServerState.mem_sample.mp hme
    obtain ⟨q, -, rfl⟩ := List.mem_map.mp hsnap
    exact .inl (congrArg Notes.window (ServerState.notes_sample hsound.indexed hme))
  · exact .inr (congrArg Notes.window (ServerState.notes_sample_ne hsound.indexed hr))

theorem remembers_sample (hsound : w.server.registry.Sound) (h : w.Remembers r)
    (hclock : w.clock ≤ now) :
    Remembers r { w with server := (w.server.sample limits now).1, clock := now } := by
  have hfollows : ServerState.Follows (fun _ => True) w.server (w.server.sample limits now).1 :=
    ServerState.follows_sample
  refine ⟨?_, fun hr => h.2 (Nat.le_trans hfollows.next_le hr)⟩
  have hlater : Covers w.server.anticheat.span now w.seen (w.times r) := h.1.later hclock
  have hspan : (w.server.sample limits now).1.anticheat = w.server.anticheat :=
    ServerState.anticheat_sample
  change Covers (w.server.sample limits now).1.anticheat.span now w.seen _
  rw [hspan]
  refine hlater.prune fun k t ht ht' => ?_
  change ((w.server.sample limits now).1.get r).ac.window.lookup k = some t
  rcases window_sample hsound with hwindow | hwindow
  · rw [hwindow]
    exact lookup_retain.mpr ⟨ht, decide_eq_true ht'⟩
  · rw [hwindow]
    exact ht

-- The client sets a slot while the anticheat is switched on.
theorem covers_record {ac : AnticheatConfig} {message : VoiceTargetMessage} {c : AcStats}
    {seen : List (Instant × UInt64)} (henabled : ac.enabled = true)
    (h : Covers ac.span now seen fun k => c.window.lookup k) :
    Covers ac.span now (message.keys.map (fun k => (now, k)) ++ seen)
      fun k => (ac.recordTargets now message.keys c).window.lookup k := by
  have hstamped : Covers ac.span now (message.keys.map (fun k => (now, k)) ++ seen)
      fun k => (message.keys.foldl (fun w k => AList.insert k now w) c.window).lookup k :=
    h.add (fun k hk => by rw [lookup_stamp, if_pos hk]) (fun k hk => by rw [lookup_stamp, if_neg hk])
  refine hstamped.prune fun k t ht hrecent => ?_
  unfold AnticheatConfig.recordTargets
  rw [henabled]
  exact lookup_retain.mpr ⟨ht, decide_eq_true hrecent⟩

theorem times_registered (htransition : w.server.Transition l w'.server)
    {message : VoiceTargetMessage} (hevent : l.event = .Tcp r (.VoiceTarget message))
    (hrun : w.server.loops r .Tcp = true) (hvalid : message.Valid) :
    w'.times r = fun k =>
      (w.server.anticheat.recordTargets l.now message.keys (w.server.get r).ac).window.lookup k := by
  have hwindow : (w'.server.get r).ac.window =
      (w.server.anticheat.recordTargets l.now message.keys (w.server.get r).ac).window :=
    congrArg Notes.window (ServerState.notes_registered htransition hevent hrun hvalid)
  funext k
  rw [times, hwindow]

theorem seen_registered (now : Instant) (message : VoiceTargetMessage) :
    (message.registers.map fun x => (now, x)).map (fun e => (e.1, e.2.key)) =
      message.keys.map fun k => (now, k) := by
  rw [VoiceTargetMessage.keys_eq, List.map_map, List.map_map]
  rfl

theorem not_disturbs_registers {message : VoiceTargetMessage}
    (hevent : l.event = .Tcp r (.VoiceTarget message)) : ¬w.server.Disturbs r l.event := by
  rw [hevent]
  rintro (hreset | ⟨config, hconfig, -⟩)
  · exact hreset
  · cases hconfig

theorem remembers_registered (hsound : w.server.registry.Sound) (h : w.Remembers r)
    (hnext : w.server.next ≤ w'.server.next) (hstep : w.Step r (.Event l) w') {message : VoiceTargetMessage}
    (hevent : l.event = .Tcp r (.VoiceTarget message)) (hrun : w.server.loops r .Tcp = true)
    (hvalid : message.Valid) : w'.Remembers r := by
  obtain ⟨hclock, htransition, -, hnow, -, hkept⟩ := hstep
  have hquiet : ¬w.server.Disturbs r l.event := not_disturbs_registers hevent
  have hlater : Covers w.server.anticheat.span l.now w.seen (w.times r) := h.1.later hclock
  have hspan : w'.server.anticheat.span = w.server.anticheat.span := by
    rw [AnticheatConfig.span, ServerState.windowSecs_transition hsound.indexed htransition hquiet]
    rfl
  have hlt : r < w.server.next := ServerState.loops_lt hrun
  refine ⟨?_, fun hr => absurd (Nat.lt_of_lt_of_le hlt hnext) (Nat.not_lt.mpr hr)⟩
  rw [if_neg hquiet, ServerState.registers_of hevent hrun hvalid] at hkept
  rw [hspan, hnow, times_registered htransition hevent hrun hvalid, seen, hkept]
  cases henabled : w.server.anticheat.enabled with
  | true =>
      rw [if_pos rfl, List.map_append, seen_registered]
      exact covers_record henabled hlater
  | false =>
      rw [if_neg Bool.false_ne_true, List.nil_append]
      refine hlater.prune fun k t ht _ => ?_
      unfold AnticheatConfig.recordTargets
      rw [henabled]
      exact ht

theorem remembers_event (hsound : w.server.registry.Sound) (h : w.Remembers r)
    (hnext : w.server.next ≤ w'.server.next) (hstep : w.Step r (.Event l) w') : w'.Remembers r := by
  by_cases hregisters : w.server.Registers r l.event
  · obtain ⟨message, hevent, hrun, hvalid⟩ := hregisters
    exact remembers_registered hsound h hnext hstep hevent hrun hvalid
  · obtain ⟨hclock, htransition, -, hnow, -, hkept⟩ := hstep
    have hlater : Covers w.server.anticheat.span w'.clock w.seen (w.times r) :=
      h.1.later (hnow ▸ hclock)
    rw [ServerState.registers_of_not hregisters, ite_self, List.nil_append] at hkept
    by_cases hdisturbs : w.server.Disturbs r l.event
    · rw [if_pos hdisturbs] at hkept
      refine ⟨?_, fun _ => hkept⟩
      rw [seen, hkept]
      exact .nil
    · rw [if_neg hdisturbs] at hkept
      have hspan : w'.server.anticheat.span = w.server.anticheat.span := by
        rw [AnticheatConfig.span, ServerState.windowSecs_transition hsound.indexed htransition hdisturbs]
        rfl
      refine ⟨?_, fun hr => hkept.trans (h.2 (Nat.le_trans hnext hr))⟩
      rw [hspan, seen, hkept]
      rcases ServerState.notes_transition hsound.indexed htransition hregisters
        fun hreset => hdisturbs (.inl hreset) with hsame | ⟨hnew, -⟩
      · have hwindow : (w'.server.get r).ac.window = (w.server.get r).ac.window :=
          congrArg Notes.window hsame
        exact hlater.prune fun k t ht _ => by
          rw [times, hwindow]
          exact ht
      · rw [h.2 hnew]
        exact .nil

theorem remembers_run {removePositionalData : Bool} {anticheat : AnticheatConfig} {bans : BanList}
    {start : Instant}
    (hrun : Run (Step r) ⟨.new removePositionalData anticheat bans, start, [], []⟩ course w) :
    w.server.registry.Sound ∧ w.Remembers r :=
  hrun.invariant (I := fun w => w.server.registry.Sound ∧ w.Remembers r) (P := fun _ => True)
    (fun {w occurs w'} _ hw hstep => by
      cases occurs with
      | Event l =>
          have hfollows := ServerState.step_follows hw.1.counted hstep.2.1.step
          refine ⟨?_, remembers_event hw.1 hw.2 hfollows.next_le hstep⟩
          exact hfollows.invariant (fun _ hg hop => hg.step hop) hw.1
      | Sample limits now =>
          obtain ⟨hclock, rfl⟩ := hstep
          refine ⟨?_, remembers_sample hw.1 hw.2 hclock⟩
          exact ServerState.follows_sample.invariant (fun _ hg hop => hg.step hop) hw.1)
    (fun _ _ => trivial)
    ⟨ServerState.sound_new removePositionalData anticheat bans, .nil, fun _ => rfl⟩

-- What was registered within the last `window_secs`.
def recent (w : Record) (now : Instant) : List (Instant × Target) :=
  w.registered.filter fun e => now - e.1 ≤ w.server.anticheat.windowSecs.toNat * NANOS

def targets (w : Record) (now : Instant) : Finset Target :=
  ((w.recent now).map fun e => e.2).toFinset

-- What the window of the client holds of that when the sampler looks.
def held (w : Record) (r : ClientRef) (now : Instant) : Finset UInt64 :=
  (Snap.new r (w.server.get r)).recent w.server.anticheat now

theorem card_targets_le (h : w.Remembers r) (hclock : w.clock ≤ now)
    (hkept : ∀ e ∈ w.recent now, e ∈ w.kept) : (w.targets now).card ≤ (w.held r now).card := by
  have hsubset : (w.targets now).image Target.key ⊆ w.held r now := by
    intro k hk
    obtain ⟨x, hx, rfl⟩ := Finset.mem_image.mp hk
    obtain ⟨e, he, rfl⟩ := List.mem_map.mp (List.mem_toFinset.mp hx)
    have hseen : (e.1, e.2.key) ∈ w.seen := List.mem_map_of_mem (hkept e he)
    have hnow : now - e.1 ≤ w.server.anticheat.span := by
      have hnow := of_decide_eq_true (List.mem_filter.mp he).2
      exact Nat.le_trans hnow (Nat.mul_le_mul_right _ (Nat.le_max_left _ _))
    obtain ⟨t, ht, hrecent⟩ := h.1.find hseen hclock hnow
    refine Finset.mem_filter.mpr ⟨?_, t, ht, hrecent⟩
    rw [List.mem_toFinset, ← AList.mem_keys]
    exact HashIndex.mem_iff_lookup.mpr ⟨t, ht⟩
  calc (w.targets now).card
    _ = ((w.targets now).image Target.key).card :=
      (Finset.card_image_of_injective _ Target.key_injective).symm
    _ ≤ _ := Finset.card_le_card hsubset

-- So many are a large part of the connected clients.
def Many (limits : Limits) (w : Record) (n : Nat) : Prop :=
  limits.minRecipients.toNat ≤ n ∧
    limits.thresholdPct.toNat * w.server.clients.values.length ≤ n * 100

theorem Many.mono {n n' : Nat} (h : w.Many limits n) (hn : n ≤ n') : w.Many limits n' :=
  ⟨h.1.trans hn, h.2.trans (Nat.mul_le_mul_right _ hn)⟩

-- The clients are few enough to be counted.
theorem enough_iff (hsound : w.server.registry.Sound) {n : Nat} :
    (w.server.snapshot hsound.indexed).Enough limits n ↔ w.Many limits n := by
  have hlength : (w.server.snapshot hsound.indexed).snaps.length =
      w.server.clients.values.length := List.length_map ..
  have hfew : w.server.clients.values.length ≤ MAX_CLIENTS := by
    have hcounted : w.server.clients.entries.length ≤ MAX_CLIENTS := hsound.counted.2
    rw [HashIndex.values, List.length_map]
    exact hcounted
  have hsmall : w.server.clients.values.length < 2 ^ 32 := Nat.lt_of_le_of_lt hfew (by decide)
  unfold Snapshot.Enough Many
  rw [hlength, Nat.mod_eq_of_lt hsmall, Nat.mul_comm]

-- The client registered many targets lately, and no other client has it as a target.
structure TalksWidely (limits : Limits) (now : Instant) (r : ClientRef) (w : Record) : Prop where
  many : w.Many limits (w.targets now).card
  ignored : ∀ o ∈ w.server.snaps, o.ref ≠ r → o.targets (.new r (w.server.get r)) = false

-- Such a client is suspicious if its window holds enough of that, or enough others hear it,
-- and if somebody hears it at all. The window holds enough where it has all that was
-- registered lately.
theorem chunking_caught_iff {removePositionalData : Bool} {anticheat : AnticheatConfig}
    {bans : BanList} {start : Instant} {me : Snap} {m : Measures}
    (hrun : Run (Step r) ⟨.new removePositionalData anticheat bans, start, [], []⟩ course w)
    (hclock : w.clock ≤ now) (hme : (me, m) ∈ (w.server.sample limits now).2) (hr : me.ref = r)
    (htalks : w.TalksWidely limits now r) :
    ((m.talkCheat limits (Sampler.active w.server.snaps) = true ∧
        ((w.server.sample limits now).1.get r).ac.strikes = (w.server.get r).ac.strikes + 1) ↔
      (w.Many limits ((w.held r now).card % 2 ^ 32) ∨
        w.Many limits (me.audience w.server.channels).card) ∧
      ∃ x, x ≠ (w.server.get r).sessionId ∧ w.server.Aimed r x) ∧
    ((∀ e ∈ w.recent now, e ∈ w.kept) → (w.held r now).card < 2 ^ 32 →
      w.Many limits ((w.held r now).card % 2 ^ 32)) := by
  subst hr
  obtain ⟨hsound, hremembers⟩ := remembers_run hrun
  obtain ⟨-, -, hsnap, hm⟩ := ServerState.mem_sample.mp hme
  have hnew : me = .new me.ref (w.server.get me.ref) := by
    obtain ⟨q, -, rfl⟩ := List.mem_map.mp hsnap
    rfl
  refine ⟨?_, fun hkept hsmall => ?_⟩
  · have hhigh : m.highReach limits (Sampler.active w.server.snaps) = true ↔
        w.Many limits ((w.held me.ref now).card % 2 ^ 32) ∨
          w.Many limits (me.audience w.server.channels).card := by
      have hreach : (Sampler.measure w.server.channels w.server.snaps me w.server.anticheat limits
          now).highReach limits (Sampler.active w.server.snaps) = true ↔ _ :=
        Snapshot.highReach_iff (t := w.server.snapshot hsound.indexed) w.server.anticheat now
      rw [enough_iff hsound, enough_iff hsound, or_comm, hnew] at hreach
      rw [hm, hnew]
      exact hreach
    have hlow : m.lowMutuality limits = true ↔ Sampler.reached w.server.channels me ≠ ∅ :=
      ServerState.lowMutuality_iff_reached hsound.indexed hsnap hm (hnew ▸ htalks.ignored)
    have hreached : Sampler.reached w.server.channels me ≠ ∅ ↔
        ∃ x, x ≠ (w.server.get me.ref).sessionId ∧ w.server.Aimed me.ref x := by
      rw [← Finset.nonempty_iff_ne_empty]
      refine exists_congr fun x => ?_
      rw [hnew]
      exact ServerState.mem_reached_iff
    have htalk : m.talkCheat limits (Sampler.active w.server.snaps) = true ↔
        m.highReach limits (Sampler.active w.server.snaps) = true ∧
          m.lowMutuality limits = true := by
      rw [Measures.talkCheat, Bool.and_eq_true]
    rw [← hhigh, ← hreached, ← hlow, ← htalk]
    refine ⟨fun h => h.1, fun h => ⟨h, ?_⟩⟩
    have hstrikes : ((w.server.sample limits now).1.get me.ref).ac.strikes =
        m.count limits (Sampler.active w.server.snaps) (w.server.get me.ref).ac.strikes :=
      congrArg Notes.strikes (ServerState.notes_sample hsound.indexed hme)
    rw [hstrikes, Measures.count, Measures.suspicious, h]
    rfl
  · rw [Nat.mod_eq_of_lt hsmall]
    exact htalks.many.mono (card_targets_le hremembers hclock hkept)

-- A run that is computed event by event.

def after (r : ClientRef) (w : Record) (now : Instant) (e : Event) : Record :=
  let registers := w.server.registers r ⟨now, e, .ok ()⟩
  ⟨w.server.after now e, now, registers ++ w.registered,
    (if w.server.anticheat.enabled then registers else []) ++ w.kept⟩

theorem not_disturbs_plain {e : Event} (hplain : e.isPlain = true) : ¬w.server.Disturbs r e := by
  rintro (hreset | ⟨config, rfl, -⟩)
  · exact ServerState.not_resets_of_plain hplain hreset
  · cases hplain

theorem step_after {e : Event} (h : w.server.outcome now e = some (.ok ()))
    (hplain : e.isPlain = true) (hclock : w.clock ≤ now) :
    w.Step r (.Event ⟨now, e, .ok ()⟩) (after r w now e) := by
  refine ⟨hclock, ServerState.transition_after h, ?_, rfl, rfl, ?_⟩
  · rintro q reason rfl
    cases hplain
  · rw [if_neg (not_disturbs_plain hplain)]
    rfl

theorem run_after {events : List Event}
    (h : w.server.orderly (events.map fun e => (now, e)) = true)
    (hplain : ∀ e ∈ events, e.isPlain = true) (hclock : w.clock ≤ now) :
    ∃ course, Run (Step r) w course (events.foldl (fun w e => after r w now e) w) := by
  induction events generalizing w with
  | nil => exact ⟨[], .Done w⟩
  | cons e events ih =>
      simp only [List.map_cons, ServerState.orderly, Bool.and_eq_true, decide_eq_true_eq] at h
      obtain ⟨⟨houtcome, -⟩, hrest⟩ := h
      obtain ⟨course, hrun⟩ := ih (w := after r w now e) hrest
        (fun e he => hplain e (List.mem_cons_of_mem _ he)) (Nat.le_refl now)
      exact ⟨_, .Step (step_after houtcome (hplain e List.mem_cons_self) hclock) hrun⟩

-- There are two clients, and one of them registers three targets.

def talkEvents (items : List TargetItem) : List Event :=
  ServerState.sampleClients.map (fun e => e.2) ++ [.Tcp 0 (.VoiceTarget ⟨some 1, items⟩)]

def talk (items : List TargetItem) : Record :=
  (talkEvents items).foldl (fun w e => after 0 w 0 e) ⟨ServerState.sampleServer, 0, [], []⟩

theorem run_talk {items : List TargetItem}
    (h : ServerState.sampleServer.orderly ((talkEvents items).map fun e => (0, e)) = true) :
    ∃ course, Run (Step 0) ⟨ServerState.sampleServer, 0, [], []⟩ course (talk items) := by
  refine run_after h ?_ (Nat.le_refl _)
  intro e he
  simp only [talkEvents, ServerState.sampleClients, List.map_cons, List.map_nil, List.cons_append,
    List.nil_append, List.mem_cons, List.not_mem_nil, or_false] at he
  rcases he with rfl | rfl | rfl <;> rfl

def talker (items : List TargetItem) : Snap := .new 0 ((talk items).server.get 0)

def talkMeasures (items : List TargetItem) : Measures :=
  Sampler.measure (talk items).server.channels (talk items).server.snaps (talker items)
    (talk items).server.anticheat ServerState.sampleLimits 0

theorem mem_sample_talk {items : List TargetItem}
    (h : (talk items).server.anticheat.enabled = true ∧
      Sampler.active (talk items).server.snaps ≠ 0 ∧
      (0 : ClientRef) ∈ (talk items).server.clients.values) :
    (talker items, talkMeasures items) ∈
      ((talk items).server.sample ServerState.sampleLimits 0).2 :=
  ServerState.mem_sample.mpr ⟨h.1, h.2.1, List.mem_map_of_mem h.2.2, rfl⟩

-- One of the targets is the other client's session.
def reachingItems : List TargetItem := [⟨[2], some 101⟩, ⟨[], some 102⟩]

theorem chunking_caught_iff_talk :
    (talk reachingItems).TalksWidely ServerState.sampleLimits 0 0 ∧
      (talkMeasures reachingItems).talkCheat ServerState.sampleLimits
        (Sampler.active (talk reachingItems).server.snaps) = true := by
  have hok : ServerState.sampleServer.orderly ((talkEvents reachingItems).map fun e => (0, e)) =
      true := by decide +kernel
  obtain ⟨course, hrun⟩ := run_talk hok
  have hme : (talker reachingItems, talkMeasures reachingItems) ∈
      ((talk reachingItems).server.sample ServerState.sampleLimits 0).2 :=
    mem_sample_talk (by decide +kernel)
  have htalks : (talk reachingItems).TalksWidely ServerState.sampleLimits 0 0 :=
    ⟨⟨by decide +kernel, by decide +kernel⟩, by decide +kernel⟩
  have hslot : ∃ slot ∈ ((talk reachingItems).server.get 0).targets.toList,
      (2 : UInt32) ∈ slot.sessions := by decide +kernel
  obtain ⟨slot, hslot, hsession⟩ := hslot
  obtain ⟨hiff, henough⟩ := chunking_caught_iff hrun (Nat.le_refl _) hme rfl htalks
  have hmany := henough (by decide +kernel) (by decide +kernel)
  exact ⟨htalks, (hiff.mpr ⟨.inl hmany, 2, by decide +kernel, slot, hslot, .inl hsession⟩).1⟩

-- None of the targeted channels is there.
def missingItems : List TargetItem := [⟨[], some 101⟩, ⟨[], some 102⟩, ⟨[], some 103⟩]

theorem chunking_missed :
    (∃ course, Run (Step 0) ⟨ServerState.sampleServer, 0, [], []⟩ course (talk missingItems)) ∧
      (talker missingItems, talkMeasures missingItems) ∈
        ((talk missingItems).server.sample ServerState.sampleLimits 0).2 ∧
      (∀ e ∈ (talk missingItems).recent 0, e ∈ (talk missingItems).kept) ∧
      (talk missingItems).TalksWidely ServerState.sampleLimits 0 0 ∧
      (talkMeasures missingItems).talkCheat ServerState.sampleLimits
        (Sampler.active (talk missingItems).server.snaps) = false :=
  ⟨run_talk (by decide +kernel), mem_sample_talk (by decide +kernel), by decide +kernel,
    ⟨⟨by decide +kernel, by decide +kernel⟩, by decide +kernel⟩, by decide +kernel⟩

end Record

end Mumble
