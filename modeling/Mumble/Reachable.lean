import Mumble.Registry.Membership

namespace Mumble

open Mumble.Lib

-- One event of a run: when it happened and how it ended.
structure Label where
  now : Instant
  event : Event
  result : MumbleResult

namespace ServerState

variable {s s' : ServerState} {l : Label} {labels : List Label}

-- A run is made of operations that have come to their end.
structure Transition (s : ServerState) (l : Label) (s' : ServerState) : Prop where
  step : s.step l.now l.event = .ok (s', l.result)
  ended : l.result ≠ .error .Waiting

-- What a server that was started gets to, whatever happens to it.
def Reachable (s : ServerState) : Prop :=
  ∃ removePositionalData anticheat bans labels,
    Run Transition (.new removePositionalData anticheat bans) labels s

theorem Reachable.run (h : s.Reachable) (hrun : Run Transition s labels s') : s'.Reachable := by
  obtain ⟨removePositionalData, anticheat, bans, before, hbefore⟩ := h
  exact ⟨removePositionalData, anticheat, bans, before ++ labels, hbefore.append hrun⟩

section Start

variable (removePositionalData : Bool) (anticheat : AnticheatConfig) (bans : BanList)

theorem sound_new : (ServerState.new removePositionalData anticheat bans).registry.Sound := by
  have hidle (r : ClientRef) :
      ¬(ServerState.new removePositionalData anticheat bans).registry.Running r :=
    fun hr => Nat.not_lt_zero r hr.1
  refine ⟨⟨rfl, Nat.zero_le _⟩, ⟨?_, ?_, ?_, ?_, ?_⟩⟩
  · exact fun hr => absurd hr (hidle _)
  · exact fun hr => nomatch hr
  · exact fun hr => nomatch hr
  · exact fun hr => nomatch hr
  · exact fun hr => absurd hr (hidle _)

-- At the start there is the root channel, and nobody in it.
theorem channels_new (k : UInt32) :
    (ServerState.new removePositionalData anticheat bans).registry.channels k =
      if k = 0 then some ⟨false, fun _ => none, fun _ => none⟩ else none := by
  split_ifs with hk
  · subst hk
    rfl
  · have hlook : ((ChannelMap.empty).insert (.new 0 (some 0) "Root" "Root channel" false)).lookup k =
        none := ChannelMap.lookup_insert_ne _ hk
    exact congrArg (Option.map Channel.room) hlook

theorem room_new {k : UInt32} {room : Room}
    (h : (ServerState.new removePositionalData anticheat bans).registry.channels k = some room) :
    room = ⟨false, fun _ => none, fun _ => none⟩ := by
  rw [channels_new] at h
  split_ifs at h
  exact (Option.some.inj h).symm

theorem membership_new :
    (ServerState.new removePositionalData anticheat bans).registry.Membership := by
  constructor
  · intro k room session r hroom hmember
    rw [room_new _ _ _ hroom] at hmember
    cases hmember
  · exact fun hr => nomatch hr
  · intro k room hroom htemporary
    rw [room_new _ _ _ hroom] at htemporary
    cases htemporary
  · exact ⟨_, channels_new _ _ _ 0, rfl⟩

end Start

theorem sound_transition (h : s.registry.Sound) (hstep : s.Transition l s') : s'.registry.Sound :=
  (step_follows h.counted hstep.step).invariant (fun _ hg hop => hg.step hop) h

theorem Reachable.sound (h : s.Reachable) : s.registry.Sound := by
  obtain ⟨removePositionalData, anticheat, bans, labels, hrun⟩ := h
  exact hrun.invariant (I := fun s => s.registry.Sound) (P := fun _ => True)
    (fun _ hs hstep => sound_transition hs hstep) (fun _ _ => trivial)
    (sound_new removePositionalData anticheat bans)

-- A client that was disconnected before joins a channel or makes one.
def haunts (s : ServerState) (e : Event) : Bool := (mover e).any fun r => (s.get r).cancelled

-- No join fails, and nobody who was disconnected joins.
def Orderly (s : ServerState) (l : Label) (s' : ServerState) : Prop :=
  s.Transition l s' ∧ l.result ≠ .error .ChannelDoesntExist ∧ s.haunts l.event = false

theorem Orderly.ops (h : s.Orderly l s') {op : Registry.Op} (hop : Causes s l.event l.result op) :
    op.Orderly := by
  have halive {r : ClientRef} {alive : Bool} (hmover : mover l.event = some r)
      (h' : alive = !(s.get r).cancelled) : alive = true := by
    have hconnected := h.2.2
    rw [haunts, hmover, Option.any_some] at hconnected
    rw [h', hconnected]
    rfl
  cases op with
  | FailJoin r k => exact absurd hop h.2.1
  | Join r k alive => exact halive hop.1 hop.2
  | Create r k alive => exact halive hop.1 hop.2
  | _ => trivial

-- An orderly event keeps the channels in order.
theorem membership_transition (hsound : s.registry.Sound) (h : s.registry.Membership)
    (hstep : s.Orderly l s') : s'.registry.Membership := by
  have hboth := (step_follows hsound.counted hstep.1.step).invariant
    (I := fun g => g.Sound ∧ g.Membership)
    (fun hop hg hg' => ⟨hg.1.step hg', hg.2.step hg.1.indexed hg' (hstep.ops hop)⟩) ⟨hsound, h⟩
  exact hboth.2

theorem membership_run {removePositionalData : Bool} {anticheat : AnticheatConfig} {bans : BanList}
    (hrun : Run Orderly (.new removePositionalData anticheat bans) labels s) :
    s.registry.Membership :=
  (hrun.invariant (I := fun s => s.registry.Sound ∧ s.registry.Membership) (P := fun _ => True)
    (fun _ hs hstep => ⟨sound_transition hs.1 hstep.1, membership_transition hs.1 hs.2 hstep⟩)
    (fun _ _ => trivial) ⟨sound_new .., membership_new ..⟩).2

-- A run computed event by event. Nothing is reached by an event that panics or waits.

def after (s : ServerState) (now : Instant) (e : Event) : ServerState :=
  match s.step now e with
  | .ok (_, .error .Waiting) | .error _ => s
  | .ok (s', _) => s'

def outcome (s : ServerState) (now : Instant) (e : Event) : Option MumbleResult :=
  match s.step now e with
  | .ok (_, .error .Waiting) | .error _ => none
  | .ok (_, result) => some result

def afterAll (s : ServerState) (events : List (Instant × Event)) : ServerState :=
  events.foldl (fun s e => s.after e.1 e.2) s

-- An event happens, or nothing does.
theorem after_ok {e : Event} (h : s.step now e = .ok (s', .ok ())) : s.after now e = s' := by
  unfold after
  rw [h]

theorem after_cases (s : ServerState) (now : Instant) (e : Event) :
    s.outcome now e = none ∧ s.after now e = s ∨
      ∃ result, s.outcome now e = some result ∧ s.Transition ⟨now, e, result⟩ (s.after now e) := by
  unfold outcome after
  split
  · exact .inl ⟨rfl, rfl⟩
  · exact .inl ⟨rfl, rfl⟩
  · rename_i s' result hended hstep
    exact .inr ⟨result, rfl, hstep, hended⟩

theorem transition_after {now : Instant} {e : Event} {result : MumbleResult}
    (h : s.outcome now e = some result) : s.Transition ⟨now, e, result⟩ (s.after now e) := by
  rcases after_cases s now e with ⟨hnone, -⟩ | ⟨result', hsome, hstep⟩
  · rw [hnone] at h
    cases h
  · rw [hsome] at h
    cases h
    exact hstep

theorem Reachable.after (h : s.Reachable) (now : Instant) (e : Event) :
    (s.after now e).Reachable := by
  rcases after_cases s now e with ⟨-, hsame⟩ | ⟨result, -, hstep⟩
  · rw [hsame]
    exact h
  · exact h.run (.single hstep)

theorem Reachable.afterAll (h : s.Reachable) (events : List (Instant × Event)) :
    (s.afterAll events).Reachable := by
  induction events generalizing s with
  | nil => exact h
  | cons e events ih => exact ih (h.after e.1 e.2)

-- Whether every one of the events succeeds, and none is a message of a client that was
-- disconnected.
def orderly (s : ServerState) : List (Instant × Event) → Bool
  | [] => true
  | e :: events => s.outcome e.1 e.2 = some (.ok ()) && !s.haunts e.2 &&
      (s.after e.1 e.2).orderly events

theorem run_orderly {events : List (Instant × Event)} (h : s.orderly events = true) :
    ∃ labels, Run Orderly s labels (s.afterAll events) := by
  induction events generalizing s with
  | nil => exact ⟨[], .Done s⟩
  | cons e events ih =>
      simp only [orderly, Bool.and_eq_true, decide_eq_true_eq, Bool.not_eq_true'] at h
      obtain ⟨⟨houtcome, hhaunts⟩, hrest⟩ := h
      obtain ⟨labels, hrun⟩ := ih hrest
      refine ⟨⟨e.1, e.2, .ok ()⟩ :: labels, .Step ⟨transition_after houtcome, ?_, hhaunts⟩ hrun⟩
      exact fun herror => nomatch herror

theorem reachable_new (removePositionalData : Bool) (anticheat : AnticheatConfig)
    (bans : BanList) : (ServerState.new removePositionalData anticheat bans).Reachable :=
  ⟨removePositionalData, anticheat, bans, [], .Done _⟩

-- A server with two clients, who have the sessions 1 and 2.

def sampleServer : ServerState := .new false ⟨true, 10, 500, 30, .Mute⟩ ⟨[], 1⟩

def sampleClients : List (Instant × Event) :=
  [(0, .Connect "eve" "10.0.0.1" (Vector.replicate KEY_SIZE 1) .Open),
    (0, .Connect "bob" "10.0.0.2" (Vector.replicate KEY_SIZE 2) .Open)]

-- A `UserState` of a client about itself that changes nothing.
def sampleUserState (session : UInt32) : UserState :=
  ⟨some session, none, none, none, none, none, [], []⟩

theorem reachable_sample (events : List (Instant × Event)) :
    (sampleServer.afterAll events).Reachable := (reachable_new ..).afterAll events

end ServerState

end Mumble
