import Mathlib.Data.List.TakeWhile
import Mumble.Sampler.Cycles

/-!
When the sampler acts on its suspicion. A client gets a strike in a cycle in which it is
suspicious, and one is taken from it in a cycle in which it is not.
-/

namespace Mumble

open Mumble.Lib

namespace Registry

variable {g g' : Registry} {r : ClientRef} {op : Op}

-- A client that was connected and is not any more.
def Gone (g : Registry) (r : ClientRef) : Prop := r < g.next ∧ ¬g.Connected r

theorem connected_of_drop {session : UInt32} (h : (g.drop session).Connected r) : g.Connected r := by
  cases hlook : g.clients session with
  | none => rwa [drop_none hlook] at h
  | some q =>
      rw [drop_some hlook] at h
      obtain ⟨other, hother⟩ := h
      exact ⟨other, (erase_eq_some.mp hother).2⟩

theorem join_clients (g : Registry) (r : ClientRef) (k : UInt32) :
    (g.join r k).clients = g.clients := by
  unfold join
  split_ifs <;> rfl

theorem connected_of_apply (h : (op.apply g).Connected r) : g.Connected r ∨ r = g.next := by
  cases op with
  | Add session =>
      obtain ⟨other, hother⟩ := h
      rcases of_keep hother with hother | ⟨-, hr⟩
      · exact .inl ⟨other, hother⟩
      · exact .inr hr
  | Join q k _ =>
      obtain ⟨other, hother⟩ := h
      exact .inl ⟨other, join_clients g q k ▸ hother⟩
  | Create q k _ =>
      obtain ⟨other, hother⟩ := h
      exact .inl ⟨other, join_clients (g.create k) q k ▸ hother⟩
  | Drop session => exact .inl (connected_of_drop h)
  | SetMute q b | SetDeaf q b | FailJoin q k | Listen q k | Unlisten q k | Bind q addr | Unbind q =>
      exact .inl h

-- It does not come back.
theorem Gone.step (h : g.Gone r) (hstep : g.Step op g') : g'.Gone r := by
  refine ⟨Nat.lt_of_lt_of_le h.1 hstep.next_le, fun hconnected => ?_⟩
  rcases connected_of_apply (hstep.2 ▸ hconnected) with hthere | hnew
  · exact h.2 hthere
  · exact Nat.ne_of_lt h.1 hnew

end Registry

namespace ServerState

variable {s s' : ServerState} {r : ClientRef} {now : Instant} {limits : Limits} {l : Label}

def evaluates (s : ServerState) (limits : Limits) (now : Instant) (r : ClientRef) : Bool :=
  (s.sample limits now).2.any fun e => e.1.ref = r

-- Whether the client is suspicious in a cycle.
def suspects (s : ServerState) (limits : Limits) (now : Instant) (r : ClientRef) : Bool :=
  (s.sample limits now).2.any fun e =>
    e.1.ref = r && e.2.suspicious limits (Sampler.active s.snaps)

-- Whether `flag` is called for it.
def flags (s : ServerState) (limits : Limits) (now : Instant) (r : ClientRef) : Bool :=
  (s.sample limits now).2.any fun e =>
    e.1.ref = r && e.2.flags limits (Sampler.active s.snaps) (s.get r).ac.strikes

theorem Follows.gone {P : Registry.Op → Prop} (h : Follows P s s') (hgone : s.registry.Gone r) :
    s'.registry.Gone r := h.invariant (I := fun g => g.Gone r) (fun _ hg hop => hg.step hop) hgone

section Cycle

variable {e : Snap × Measures}

-- A client has one entry.
theorem any_sample (h : s.registry.Indexed) (he : e ∈ (s.sample limits now).2) (hr : e.1.ref = r)
    (p : Snap × Measures → Bool) :
    ((s.sample limits now).2.any fun e => e.1.ref = r && p e) = p e := by
  rw [Bool.eq_iff_iff, List.any_eq_true]
  constructor
  · rintro ⟨e', he', hp⟩
    simp only [Bool.and_eq_true, decide_eq_true_eq] at hp
    have hsame : e' = e := List.inj_on_of_nodup_map (nodup_sample h) he' he (hp.1.trans hr.symm)
    exact hsame ▸ hp.2
  · intro hp
    exact ⟨e, he, by simp [hr, hp]⟩

-- The client is judged when some others have been, which does not matter to it.
theorem judge_flags (h : s.registry.Indexed) {before after : List (Snap × Measures)}
    (hsplit : (s.sample limits now).2 = before ++ e :: after) {t : ServerState}
    (ht : t = before.foldl (fun t e => t.judge limits now (Sampler.active s.snaps) e.1 e.2) s) :
    t.judge limits now (Sampler.active s.snaps) e.1 e.2 =
      if s.flags limits now e.1.ref then
        (t.charge limits now (Sampler.active s.snaps) e.1 e.2).flag e.1.ref now
          (e.2.reason limits (Sampler.active s.snaps))
      else t.charge limits now (Sampler.active s.snaps) e.1 e.2 := by
  have hnodup : ((s.sample limits now).2.map fun e => e.1.ref).Nodup := nodup_sample h
  rw [hsplit, List.map_append, List.map_cons, List.nodup_append] at hnodup
  have hbefore : e.1.ref ∉ before.map fun e => e.1.ref :=
    fun hmem => hnodup.2.2 _ hmem _ List.mem_cons_self rfl
  have hstrikes : (t.get e.1.ref).ac.strikes = (s.get e.1.ref).ac.strikes := by
    rw [ht]
    exact congrArg Notes.strikes ((notes_foldl_judge hnodup.1).2 _ hbefore)
  have he : e ∈ (s.sample limits now).2 := by
    rw [hsplit]
    exact List.mem_append_right _ List.mem_cons_self
  rw [judge_eq, hstrikes, flags, any_sample h he rfl]

theorem connected_of_sample (he : e ∈ (s.sample limits now).2) : s.registry.Connected e.1.ref := by
  obtain ⟨-, -, hsnap, -⟩ := mem_sample.mp he
  obtain ⟨r, hr, hnew⟩ := List.mem_map.mp hsnap
  rw [← hnew]
  exact HashIndex.mem_values.mp hr

theorem evaluates_iff :
    s.evaluates limits now r = true ↔ ∃ e ∈ (s.sample limits now).2, e.1.ref = r := by
  simp [evaluates]

end Cycle

theorem strikes_transition (hindexed : s.registry.Indexed) (h : s.Transition l s')
    (hresets : ¬s.Resets r l.event) :
    (s'.get r).ac.strikes = (s.get r).ac.strikes ∨ (s'.get r).ac.strikes = 0 := by
  by_cases hregisters : s.Registers r l.event
  · obtain ⟨message, hevent, hrun, hvalid⟩ := hregisters
    exact .inl (congrArg Notes.strikes (notes_registered h hevent hrun hvalid))
  · rcases notes_transition hindexed h hregisters hresets with hsame | ⟨-, hempty⟩
    · exact .inl (congrArg Notes.strikes hsame)
    · exact .inr (congrArg Notes.strikes hempty)

end ServerState

-- A run of the server and the sampler, with whether a client was suspicious in each of
-- the past cycles. The last cycle comes first.
structure Watch where
  server : ServerState
  verdicts : List Bool

namespace Watch

variable {k : UInt32} {r : ClientRef} {w w' : Watch} {occurs : Occurrence} {course : List Occurrence}
  {limits : Limits} {now : Instant}

-- The settings may change from one cycle to the next, except for `strikes_required`.
-- The calls of `flag` are part of the cycles here.
def Step (k : UInt32) (r : ClientRef) (w : Watch) (occurs : Occurrence) (w' : Watch) : Prop :=
  match occurs with
  | .Event l => w.server.Transition l w'.server ∧ (∀ q reason, l.event ≠ .Flag q reason) ∧
      ¬w.server.Resets r l.event ∧ w'.verdicts = w.verdicts
  | .Sample limits now => limits.strikesRequired = k ∧
      w' = ⟨(w.server.sample limits now).1, w.server.suspects limits now r :: w.verdicts⟩

-- A cycle in which a connected client is not suspicious leaves it no strike.
def Spares (k : UInt32) (r : ClientRef) (w : Watch) : Occurrence → Prop
  | .Event _ => True
  | .Sample limits now => k ≤ 1 ∨ w.server.suspects limits now r = true ∨
      ¬w.server.registry.Connected r ∨
      (w.server.get r).ac.strikes ≤ if w.server.evaluates limits now r then 1 else 0

def SparingStep (k : UInt32) (r : ClientRef) (w : Watch) (occurs : Occurrence) (w' : Watch) : Prop :=
  w.Spares k r occurs ∧ w.Step k r occurs w'

theorem follows_step (hsound : w.server.registry.Sound) (h : w.Step k r occurs w') :
    ∃ P, ServerState.Follows P w.server w'.server := by
  cases occurs with
  | Event l => exact ⟨_, ServerState.step_follows hsound.counted h.1.step⟩
  | Sample limits now =>
      rw [h.2]
      exact ⟨_, ServerState.follows_sample⟩

-- The strikes are no more than the cycles up to now, one after the other, in which the
-- client was suspicious.
def Earned (r : ClientRef) (w : Watch) : Prop :=
  w.server.registry.Gone r ∨
    (w.server.get r).ac.strikes.toNat ≤ (w.verdicts.takeWhile id).length ∧
      (w.server.next ≤ r → (w.server.get r).ac.strikes = 0)

theorem earned_evaluated {e : Snap × Measures} (hk : 1 < k) (hsound : w.server.registry.Sound)
    (he : e ∈ (w.server.sample limits now).2)
    (hle : (w.server.get e.1.ref).ac.strikes.toNat ≤ (w.verdicts.takeWhile id).length)
    (hspares : w.Spares k e.1.ref (.Sample limits now)) :
    ((w.server.sample limits now).1.get e.1.ref).ac.strikes.toNat ≤
      ((w.server.suspects limits now e.1.ref :: w.verdicts).takeWhile id).length := by
  have hstrikes : ((w.server.sample limits now).1.get e.1.ref).ac.strikes =
      e.2.count limits (Sampler.active w.server.snaps) (w.server.get e.1.ref).ac.strikes :=
    congrArg Notes.strikes (ServerState.notes_sample hsound.indexed he)
  have hverdict : w.server.suspects limits now e.1.ref =
      e.2.suspicious limits (Sampler.active w.server.snaps) :=
    ServerState.any_sample hsound.indexed he rfl _
  rw [hstrikes, Measures.count, ← hverdict]
  cases hsuspects : w.server.suspects limits now e.1.ref with
  | true =>
      rw [if_pos rfl, List.takeWhile_cons_of_pos rfl, List.length_cons, UInt32.toNat_add]
      exact Nat.le_trans (Nat.mod_le _ _) (Nat.succ_le_succ hle)
  | false =>
      rw [if_neg Bool.false_ne_true]
      have hevaluates : w.server.evaluates limits now e.1.ref = true :=
        ServerState.evaluates_iff.mpr ⟨e, he, rfl⟩
      rcases hspares with hone | hsuspects' | hgone | hfew
      · exact absurd hk (UInt32.not_lt.mpr hone)
      · exact absurd (hsuspects.symm.trans hsuspects') Bool.false_ne_true
      · exact absurd (ServerState.connected_of_sample he) hgone
      · rw [if_pos hevaluates, UInt32.le_iff_toNat_le] at hfew
        have hfew : (w.server.get e.1.ref).ac.strikes.toNat ≤ 1 := hfew
        have hzero : (if 0 < (w.server.get e.1.ref).ac.strikes then
            (w.server.get e.1.ref).ac.strikes - 1 else (w.server.get e.1.ref).ac.strikes) = 0 := by
          split_ifs with hpos
          · rw [UInt32.lt_iff_toNat_lt] at hpos
            have hpos : 0 < (w.server.get e.1.ref).ac.strikes.toNat := hpos
            have hone : (w.server.get e.1.ref).ac.strikes = 1 :=
              UInt32.toNat_inj.mp (Nat.le_antisymm hfew hpos)
            rw [hone]
            rfl
          · exact UInt32.le_zero_iff.mp (UInt32.not_lt.mp hpos)
        rw [hzero]
        exact Nat.zero_le _

theorem earned_sample (hk : 1 < k) (hsound : w.server.registry.Sound) (h : w.Earned r)
    (hspares : w.Spares k r (.Sample limits now)) :
    Earned r ⟨(w.server.sample limits now).1, w.server.suspects limits now r :: w.verdicts⟩ := by
  have hfollows : ServerState.Follows (fun _ => True) w.server (w.server.sample limits now).1 :=
    ServerState.follows_sample
  rcases h with hgone | ⟨hle, hnew⟩
  · exact .inl (hfollows.gone hgone)
  by_cases hevaluated : w.server.evaluates limits now r = true
  · obtain ⟨e, he, rfl⟩ := ServerState.evaluates_iff.mp hevaluated
    obtain ⟨session, hsession⟩ := ServerState.connected_of_sample he
    have hlt : e.1.ref < w.server.next := (hsound.indexed.connected hsession).1.1
    refine .inr ⟨earned_evaluated hk hsound he hle hspares, fun hr => ?_⟩
    exact absurd (Nat.lt_of_lt_of_le hlt hfollows.next_le) (Nat.not_lt.mpr hr)
  · have hnone : r ∉ (w.server.sample limits now).2.map fun e => e.1.ref := by
      intro hmem
      obtain ⟨e, he, hr⟩ := List.mem_map.mp hmem
      exact hevaluated (ServerState.evaluates_iff.mpr ⟨e, he, hr⟩)
    have hstrikes : ((w.server.sample limits now).1.get r).ac.strikes =
        (w.server.get r).ac.strikes :=
      congrArg Notes.strikes (ServerState.notes_sample_ne hsound.indexed hnone)
    have hzero (hzero : (w.server.get r).ac.strikes = 0) :
        Earned r ⟨(w.server.sample limits now).1, w.server.suspects limits now r :: w.verdicts⟩ := by
      rw [hzero] at hstrikes
      refine .inr ⟨?_, fun _ => hstrikes⟩
      rw [hstrikes]
      exact Nat.zero_le _
    rcases hspares with hone | hsuspects | hdisconnected | hfew
    · exact absurd hk (UInt32.not_lt.mpr hone)
    · obtain ⟨e, he, hsuspects⟩ := List.any_eq_true.mp hsuspects
      simp only [Bool.and_eq_true, decide_eq_true_eq] at hsuspects
      exact absurd (ServerState.evaluates_iff.mpr ⟨e, he, hsuspects.1⟩) hevaluated
    · by_cases hlt : r < w.server.next
      · exact .inl (hfollows.gone ⟨hlt, hdisconnected⟩)
      · exact hzero (hnew (Nat.le_of_not_lt hlt))
    · rw [if_neg hevaluated] at hfew
      exact hzero (UInt32.le_zero_iff.mp hfew)

theorem earned_step (hk : 1 < k) (hsound : w.server.registry.Sound) (h : w.Earned r)
    (hspares : w.Spares k r occurs) (hstep : w.Step k r occurs w') : w'.Earned r := by
  cases occurs with
  | Sample limits now =>
      rw [hstep.2]
      exact earned_sample hk hsound h hspares
  | Event l =>
      obtain ⟨htransition, -, hresets, hverdicts⟩ := hstep
      have hfollows := ServerState.step_follows hsound.counted htransition.step
      rcases h with hgone | ⟨hle, hnew⟩
      · exact .inl (hfollows.gone hgone)
      · refine .inr ?_
        rw [hverdicts]
        rcases ServerState.strikes_transition hsound.indexed htransition hresets with hsame | hzero
        · rw [hsame]
          exact ⟨hle, fun hr => hnew (Nat.le_trans hfollows.next_le hr)⟩
        · rw [hzero]
          exact ⟨Nat.zero_le _, fun _ => rfl⟩

theorem earned_run {removePositionalData : Bool} {anticheat : AnticheatConfig} {bans : BanList}
    (hk : 1 < k)
    (hrun : Run (SparingStep k r) ⟨.new removePositionalData anticheat bans, []⟩ course w) :
    w.server.registry.Sound ∧ w.Earned r :=
  hrun.invariant (I := fun w => w.server.registry.Sound ∧ w.Earned r) (P := fun _ => True)
    (fun _ hw hstep => by
      obtain ⟨P, hfollows⟩ := follows_step hw.1 hstep.2
      exact ⟨hfollows.invariant (fun _ hg hop => hg.step hop) hw.1,
        earned_step hk hw.1 hw.2 hstep.1 hstep.2⟩)
    (fun _ _ => trivial)
    ⟨ServerState.sound_new removePositionalData anticheat bans, .inr ⟨Nat.zero_le _, fun _ => rfl⟩⟩

-- `flag` is called for a client only if it is suspicious for the `k`th time in a row, in
-- a run in which no cycle leaves a strike to a client that is not suspicious.
theorem flags_consecutive {removePositionalData : Bool} {anticheat : AnticheatConfig}
    {bans : BanList}
    (hrun : Run (SparingStep k r) ⟨.new removePositionalData anticheat bans, []⟩ course w)
    (hk : limits.strikesRequired = k) (hflags : w.server.flags limits now r = true) :
    w.server.suspects limits now r = true ∧ k.toNat - 1 ≤ w.verdicts.length ∧
      ∀ verdict ∈ w.verdicts.take (k.toNat - 1), verdict = true := by
  obtain ⟨e, he, hcalled⟩ := List.any_eq_true.mp hflags
  simp only [Measures.flags, Bool.and_eq_true, decide_eq_true_eq] at hcalled
  obtain ⟨rfl, hsuspicious, hrequired⟩ := hcalled
  refine ⟨List.any_eq_true.mpr ⟨e, he, by simp [hsuspicious]⟩, ?_⟩
  have hearned : k.toNat - 1 ≤ (w.verdicts.takeWhile id).length := by
    by_cases hone : 1 < k
    · rw [hk, UInt32.le_iff_toNat_le, Snapshot.toNat_max, UInt32.toNat_add] at hrequired
      have hsum := Nat.mod_le ((w.server.get e.1.ref).ac.strikes.toNat + (1 : UInt32).toNat) (2 ^ 32)
      have hone' : (1 : UInt32).toNat = 1 := rfl
      rcases (earned_run hone hrun).2 with hgone | ⟨hle, -⟩
      · exact absurd (ServerState.connected_of_sample he) hgone.2
      · omega
    · rw [UInt32.not_lt, UInt32.le_iff_toNat_le] at hone
      have hone : k.toNat ≤ 1 := hone
      omega
  refine ⟨Nat.le_trans hearned (List.takeWhile_prefix id).length_le, fun verdict hverdict => ?_⟩
  have htake : w.verdicts.take (k.toNat - 1) = (w.verdicts.takeWhile id).take (k.toNat - 1) :=
    calc w.verdicts.take (k.toNat - 1)
      _ = (w.verdicts.takeWhile id ++ w.verdicts.dropWhile id).take (k.toNat - 1) := by
        rw [List.takeWhile_append_dropWhile]
      _ = (w.verdicts.takeWhile id).take (k.toNat - 1) := List.take_append_of_le_length hearned
  rw [htake] at hverdict
  exact List.mem_takeWhile_imp (List.mem_of_mem_take hverdict)

def after (w : Watch) (now : Instant) (e : Event) : Watch := ⟨w.server.after now e, w.verdicts⟩

theorem step_after {e : Event} (h : w.server.outcome now e = some (.ok ()))
    (hplain : e.isPlain = true) : w.Step k r (.Event ⟨now, e, .ok ()⟩) (w.after now e) := by
  refine ⟨ServerState.transition_after h, ?_, ServerState.not_resets_of_plain hplain, rfl⟩
  rintro q reason rfl
  cases hplain

theorem run_events {s : ServerState} {events : List (Instant × Event)} {verdicts : List Bool}
    (h : s.orderly events = true) (hplain : ∀ e ∈ events, e.2.isPlain = true) :
    ∃ course, Run (SparingStep k r) ⟨s, verdicts⟩ course ⟨s.afterAll events, verdicts⟩ := by
  induction events generalizing s with
  | nil => exact ⟨[], .Done _⟩
  | cons e events ih =>
      simp only [ServerState.orderly, Bool.and_eq_true, decide_eq_true_eq] at h
      obtain ⟨⟨houtcome, -⟩, hrest⟩ := h
      obtain ⟨course, hrun⟩ := ih hrest fun e he => hplain e (List.mem_cons_of_mem _ he)
      have hstep : Step k r ⟨s, verdicts⟩ (.Event ⟨e.1, e.2, .ok ()⟩) ⟨s.after e.1 e.2, verdicts⟩ :=
        step_after houtcome (hplain e List.mem_cons_self)
      exact ⟨.Event ⟨e.1, e.2, .ok ()⟩ :: course, .Step ⟨trivial, hstep⟩ hrun⟩

-- A client listens to two channels, and that is one too many.

def spyLimits : Limits := { ServerState.sampleLimits with listenMax := 1, strikesRequired := 2 }

def spyEvents : List (Instant × Event) :=
  ServerState.sampleClients ++
    [(0, .Tcp 1 (.ChannelState ⟨none, some 0, some "den", none, some true, none⟩)),
      (0, .Tcp 0 (.UserState { ServerState.sampleUserState 1 with listeningChannelAdd := [0, 1] }))]

def spyListens : Watch := ⟨ServerState.sampleServer.afterAll spyEvents, []⟩

def cycle (w : Watch) : Watch :=
  ⟨(w.server.sample spyLimits 0).1, w.server.suspects spyLimits 0 0 :: w.verdicts⟩

theorem step_cycle (w : Watch) : w.Step 2 0 (.Sample spyLimits 0) w.cycle := ⟨rfl, rfl⟩

theorem run_spyEvents :
    ∃ course, Run (SparingStep 2 0) ⟨ServerState.sampleServer, []⟩ course spyListens :=
  run_events (by decide +kernel) (by decide)

theorem flags_consecutive_spy :
    ∃ course w, Run (SparingStep 2 0) ⟨ServerState.sampleServer, []⟩ course w ∧
      w.server.flags spyLimits 0 0 = true ∧ w.server.suspects spyLimits 0 0 = true ∧
      ∀ verdict ∈ w.verdicts.take 1, verdict = true := by
  obtain ⟨course, hevents⟩ := run_spyEvents
  have hsuspects : spyListens.server.suspects spyLimits 0 0 = true := by decide +kernel
  have hcycle : SparingStep 2 0 spyListens (.Sample spyLimits 0) spyListens.cycle :=
    ⟨.inr (.inl hsuspects), step_cycle _⟩
  have hrun := hevents.append (.single hcycle)
  have hflags : spyListens.cycle.server.flags spyLimits 0 0 = true := by decide +kernel
  have hall := flags_consecutive hrun rfl hflags
  exact ⟨_, _, hrun, hflags, hall.1, hall.2.2⟩

-- It is suspicious twice, stops listening to one of them for a cycle, and has a strike left
-- from which the next one makes two.

def pause : Event :=
  .Tcp 0 (.UserState { ServerState.sampleUserState 1 with listeningChannelRemove := [1] })

def resume : Event :=
  .Tcp 0 (.UserState { ServerState.sampleUserState 1 with listeningChannelAdd := [1] })

def spyPauses : Watch := spyListens.cycle.cycle.after 0 pause

def spyReturns : Watch := spyPauses.cycle.after 0 resume

theorem flagged_after_clean :
    ∃ course w, Run (Step 2 0) ⟨ServerState.sampleServer, []⟩ course w ∧
      w.server.flags spyLimits 0 0 = true ∧ ¬∀ verdict ∈ w.verdicts.take 1, verdict = true := by
  obtain ⟨course, hevents⟩ := run_spyEvents
  have hpauses : spyListens.cycle.cycle.Step 2 0 (.Event ⟨0, pause, .ok ()⟩) spyPauses :=
    step_after (by decide +kernel) rfl
  have hreturns : spyPauses.cycle.Step 2 0 (.Event ⟨0, resume, .ok ()⟩) spyReturns :=
    step_after (by decide +kernel) rfl
  have hcycles := (hevents.mono fun h => h.2).append (.Step (step_cycle _) (.single (step_cycle _)))
  have hclean := hcycles.append (.Step hpauses (.single (step_cycle _)))
  have hflags : spyReturns.server.flags spyLimits 0 0 = true := by decide +kernel
  have hverdicts : spyReturns.verdicts.take 1 = [false] := by decide +kernel
  refine ⟨_, spyReturns, hclean.append (.single hreturns), hflags, ?_⟩
  rw [hverdicts]
  decide

end Watch

end Mumble
