import Mumble.Deeds.Steps
import Mumble.Sends

namespace Mumble

open Mumble.Lib

-- The voice packets that were put in the queue of a client to be sent to it.
def Client.audio (c : Client) : List (VoicePacket .ClientBound) :=
  c.sent.filterMap fun
    | .SendVoicePacket packet => some packet
    | _ => none

def ClientMessage.Silent (message : ClientMessage) : Prop :=
  ∀ packet, message ≠ .SendVoicePacket packet

theorem Client.Extends.audio {c c' : Client} (h : c.Extends ClientMessage.Silent c') :
    c'.audio = c.audio := by
  obtain ⟨messages, hsent, hsilent⟩ := h.sent
  have hnone : (messages.filterMap fun
      | .SendVoicePacket packet => some packet
      | _ => none) = [] := by
    rw [List.filterMap_eq_nil_iff]
    intro message hmessage
    cases message with
    | SendVoicePacket packet => exact absurd rfl (hsilent _ hmessage packet)
    | RouteVoicePacket packet | SendMessage message => rfl
  rw [Client.audio, hsent, List.filterMap_append, hnone, List.append_nil]
  rfl

-- The events in which the server handles something that came from a client: a
-- frame of its stream, its queue, or a datagram of anyone.
def Event.From (r : ClientRef) : Event → Prop
  | .Tcp q _ => q = r
  | .Consume q => q = r
  | .Udp _ _ _ => True
  | _ => False

-- Only an operation that clears the flag makes a muted client speak again.
theorem Registry.Step.mute {g g' : Registry} {op : Registry.Op} {r : ClientRef}
    (h : g.Step op g') (hr : r < g.next) (hmute : (g.entry r).mute = true)
    (hop : ∀ b, op = .SetMute r b → b = true) : (g'.entry r).mute = true := by
  obtain ⟨-, rfl⟩ := h
  cases op with
  | Add session =>
      have hentry : (g.add session).entry r = g.entry r :=
        Function.update_of_ne (Nat.ne_of_lt hr) _ _
      exact hentry ▸ hmute
  | SetMute q b =>
      unfold Registry.Op.apply
      by_cases hq : r = q
      · subst hq
        rw [hop b rfl, Registry.setEntry_entry_self]
      · rw [Registry.setEntry_entry_ne _ hq]
        exact hmute
  | SetDeaf q b | Join q k _ | FailJoin q k | Create q k _ | Bind q addr | Unbind q | Drop session =>
      refine Eq.trans (Registry.Op.entry_field (fun e => e.mute) ?_ r) hmute
      exact fun _ => rfl
  | Listen q k | Unlisten q k => exact hmute

namespace ServerState

variable {s s' s'' : ServerState} {r : ClientRef} {l : Label} {labels : List Label}

-- One event that is neither an unmute by an admin nor the client's own.
theorem mute_transition (hsound : s.registry.Sound) (hr : r < s.next)
    (hmute : (s.get r).mute = true) (hstep : s.Transition l s')
    (hadmin : ¬s.UnmutedByAdmin r l.event) (hself : ¬s.UnmutesItself r l.event) :
    r < s'.next ∧ (s'.get r).mute = true :=
  (step_follows hsound.counted hstep.step).invariant
    (I := fun g => r < g.next ∧ (g.entry r).mute = true)
    (fun {g op g'} hop hg hstep => by
      refine ⟨Nat.lt_of_lt_of_le hg.1 hstep.next_le, hstep.mute hg.1 hg.2 ?_⟩
      rintro b rfl
      rcases hop with hb | hself' | hadmin'
      · exact hb
      · exact absurd hself' hself
      · exact absurd hadmin' hadmin) ⟨hr, hmute⟩

-- What comes from a muted client reaches nobody as audio.
theorem silent_transition (hindexed : s.registry.Indexed) (hmute : (s.get r).mute = true)
    (hstep : s.Transition l s') (hfrom : l.event.From r) : Sends ClientMessage.Silent s s' := by
  obtain ⟨t, hbegins, hdoes⟩ := step_does hindexed hstep.step
  obtain ⟨now, event, result⟩ := l
  have hnobody (p : ClientRef) (packet : VoicePacket .ClientBound)
      (hpasses : s.PassesOn now p packet event) : (s.get p).mute = true := by
    cases event with
    | Tcp q frame =>
        cases frame with
        | UDPTunnel payload =>
            obtain rfl : q = r := hfrom
            obtain ⟨rfl, -⟩ := hpasses
            exact hmute
        | _ => exact absurd hpasses id
    | Consume q =>
        obtain rfl : q = r := hfrom
        obtain ⟨rfl, -⟩ := hpasses
        exact hmute
    | _ => exact absurd hpasses id
  have htaken : Sends ClientMessage.Silent s t := by
    cases hbegins with
    | Here => exact .refl s
    | Connect => exact absurd hfrom id
    | Consume q message rest _ => exact sends_modify (fun _ => rfl) (fun _ => rfl) fun _ => rfl
  refine htaken.trans (hdoes.sends fun {q c d} hd message hmessage => ?_)
  rintro packet rfl
  cases d with
  | Push pushed =>
      obtain rfl := List.mem_singleton.mp hmessage
      obtain ⟨-, -, p, hpasses, hspeaks⟩ := hd
      rw [hnobody p packet hpasses] at hspeaks
      cases hspeaks
  | Write written => cases List.mem_singleton.mp hmessage
  | _ => cases hmessage

-- A mute holds through every run in which no admin takes it away and the client
-- does not either, and what the client sends in such a run is heard by nobody.
theorem mute_sticks (hreachable : s.Reachable) (hr : r < s.next) (hmute : (s.get r).mute = true)
    (hrun : Run (fun s l s' => s.Transition l s' ∧ ¬s.UnmutedByAdmin r l.event ∧
      ¬s.UnmutesItself r l.event) s labels s') :
    (s'.get r).mute = true ∧ ∀ l s'', s'.Transition l s'' → l.event.From r →
      ∀ q, (s''.get q).audio = (s'.get q).audio := by
  have hend := hrun.invariant (P := fun _ => True)
    (I := fun s => s.registry.Sound ∧ r < s.next ∧ (s.get r).mute = true)
    (fun {s l s'} _ hs hstep => ⟨sound_transition hs.1 hstep.1,
      mute_transition hs.1 hs.2.1 hs.2.2 hstep.1 hstep.2.1 hstep.2.2⟩)
    (fun _ _ => trivial) ⟨hreachable.sound, hr, hmute⟩
  refine ⟨hend.2.2, fun l s'' hstep hfrom q => ?_⟩
  exact (silent_transition hend.1.indexed hend.2.2 hstep hfrom q).audio

-- The second client is in the root channel, the first one is muted by an admin.
def sampleMuted : ServerState :=
  sampleServer.afterAll (sampleClients ++
    [(0, .Tcp 1 (.UserState { sampleUserState 2 with channelId := some 0 })),
      (0, .Admin (.PostMute "eve" true))])

def sampleSpeech : Event := .Tcp 0 (.UDPTunnel [128, 0, 1, 7])

theorem mute_sticks_sample : sampleMuted.Reachable ∧ (sampleMuted.get 0).mute = true ∧
    ((sampleMuted.after 0 sampleSpeech).get 0).mute = true ∧
    (((sampleMuted.after 0 sampleSpeech).after 0 sampleSpeech).get 1).audio =
      ((sampleMuted.after 0 sampleSpeech).get 1).audio := by
  have hreachable : sampleMuted.Reachable := reachable_sample _
  have hmute : (sampleMuted.get 0).mute = true := by decide +kernel
  have hfirst : sampleMuted.Transition ⟨0, sampleSpeech, .ok ()⟩
      (sampleMuted.after 0 sampleSpeech) := transition_after (by decide +kernel)
  have hsecond : (sampleMuted.after 0 sampleSpeech).Transition ⟨0, sampleSpeech, .ok ()⟩
      ((sampleMuted.after 0 sampleSpeech).after 0 sampleSpeech) :=
    transition_after (by decide +kernel)
  obtain ⟨hstays, hsilent⟩ := mute_sticks (r := 0) hreachable (by decide +kernel) hmute
    (.single ⟨hfirst, id, id⟩)
  exact ⟨hreachable, hmute, hstays, hsilent _ _ hsecond rfl 1⟩

-- The client that an admin has muted asks for its mute to be taken away, and is
-- heard again.
theorem muted_client_unmutes_itself :
    let request := Event.Tcp 0 (.UserState { sampleUserState 1 with mute := some false })
    sampleMuted.Reachable ∧ (sampleMuted.get 0).mute = true ∧
      sampleMuted.outcome 0 request = some (.ok ()) ∧
      ((sampleMuted.after 0 request).get 0).mute = false ∧
      ((sampleMuted.after 0 request).get 1).audio = [] ∧
      (((sampleMuted.after 0 request).after 0 sampleSpeech).get 1).audio =
        [.Audio 0 1 0 (.Opus [7] false) none] := by
  refine ⟨reachable_sample _, ?_⟩
  decide +kernel

end ServerState

end Mumble
