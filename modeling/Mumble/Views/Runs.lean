import Mumble.Channels
import Mumble.Views.Connect

namespace Mumble

open Mumble.Lib

namespace ServerState

variable {s s' : ServerState} {r : ClientRef} {l : Label} {labels : List Label} {now : Instant}
  {result : MumbleResult}

-- An event that brings and takes nothing and moves nobody says nothing about it.
theorem current_quiet {e : Event} (h : s.Current) (hsound : s.registry.Sound)
    (hstep : s.step now e = .ok (s', result)) (hquiet : ¬Structural e)
    (hresult : result ≠ .error .ChannelDoesntExist) : s'.Current := by
  obtain ⟨t, hbegins, hdoes⟩ := step_does hsound.indexed hstep
  have htaken : Sends ClientMessage.Quiet s t := by
    cases hbegins with
    | Here => exact .refl s
    | Connect => exact absurd trivial hquiet
    | Consume q message rest _ => exact sends_modify (fun _ => rfl) (fun _ => rfl) fun _ => rfl
  have hsends : Sends ClientMessage.Quiet t s' := by
    refine hdoes.sends fun {q c d} hd message hmessage => ?_
    cases d with
    | Write written =>
        obtain rfl := List.mem_singleton.mp hmessage
        refine ClientMessage.quiet_of_not_news _ (Bool.eq_false_iff.mpr fun hnews => ?_)
        cases written with
        | ChannelState | ChannelRemove | UserState | UserRemove =>
            obtain ⟨-, username, peerIp, key, write, rfl⟩ := hd hnews
            exact hquiet trivial
        | _ => cases hnews
    | Push pushed =>
        obtain rfl := List.mem_singleton.mp hmessage
        cases message with
        | SendMessage message => exact absurd hd.2.2 hquiet
        | RouteVoicePacket packet | SendVoicePacket packet => exact fun _ => rfl
    | _ => cases hmessage
  refine h.of_follows (htaken.trans hsends) ((step_follows hsound.counted hstep).mono fun op hop => ?_)
  cases op with
  | Add session | Drop session => exact absurd hop hquiet
  | FailJoin r k => exact absurd hop hresult
  | Join r k alive | Create r k alive =>
      refine absurd ?_ hquiet
      obtain ⟨hmover, -⟩ := hop
      unfold mover at hmover
      split at hmover
      · trivial
      · trivial
      · cases hmover
  | _ => trivial

theorem current_cleanRun (h : s.Current) (now : Instant) : (s.cleanRun now).1.Current := by
  obtain ⟨made, hsubset, t, rfl, hend⟩ := cleanRun_cases s now
  have hcleared : { s with disconnectQueue := ∅ }.Current := h.of_registry (.of_heap rfl) rfl
  have hsends : Sends ClientMessage.Quiet { s with disconnectQueue := ∅ }
      (made.foldl (fun s r => (s.resetClientCrypt r now).1) { s with disconnectQueue := ∅ }) :=
    (does_foldl (K := fun _ => False) (fun t r => does_resetClientCrypt (lenient_quiet now) t r) _
      made).sends fun hd => hd
  have hreset := hcleared.of_follows hsends (follows_resets (fun r hr =>
    HashIndex.mem_values.mp (mem_cleanPlan_reset.mp (hsubset hr)).1) fun _ => trivial)
  rcases hend with ⟨-, hdone⟩ | hwaiting
  · rw [hdone]
    refine List.foldlRecOn _ _ hreset fun t ht session _ => ?_
    exact Current.disconnect ht session
  · rw [hwaiting]
    exact hreset

-- Whoever joins in an orderly event is connected.
theorem Orderly.running (h : s.Orderly l s') (hmover : mover l.event = some r) (hr : r < s.next) :
    s.registry.Running r := by
  have hthere := h.2.2
  rw [haunts, hmover, Option.any_some] at hthere
  exact ⟨hr, hthere⟩

theorem current_transition (h : s.Current) (hsound : s.registry.Sound) (horderly : s.Orderly l s') :
    s'.Current := by
  obtain ⟨⟨hstep, hended⟩, hresult, -⟩ := id horderly
  by_cases hquiet : ¬Structural l.event
  · exact current_quiet h hsound hstep hquiet hresult
  obtain ⟨now, event, result⟩ := l
  dsimp only at hstep hended hresult hquiet
  cases event with
  | Connect username peerIp key write =>
      have hconnect : (s.handleNewClient username peerIp key write now).1.Current := by
        refine current_handleNewClient h hsound ?_
        rw [Except.ok.inj hstep]
        exact hended
      rw [Except.ok.inj hstep] at hconnect
      exact hconnect
  | Tcp r frame =>
      rcases readFrame_cases hstep with ⟨hloops, s₁, hframe, rfl⟩ | ⟨rfl, -⟩
      · refine current_countFailure ?_ r .Tcp result
        cases handleFrame_step hframe with
        | Nothing => exact h
        | ChannelState message =>
            exact current_handleChannelState h hsound (horderly.running rfl (loops_lt hloops)) message
        | UserState message =>
            refine current_handleUserState h hsound (loops_lt hloops) message (fun hk => ?_) hresult
            obtain ⟨k, hk⟩ := Option.isSome_iff_exists.mp hk
            exact horderly.running (by simp [mover, hk]) (loops_lt hloops)
        | _ => exact absurd id hquiet
      · exact h
  | CleanRun =>
      have hclean := current_cleanRun h now
      rw [Except.ok.inj hstep] at hclean
      exact hclean
  | EndLoop r =>
      cases hstep
      split_ifs
      · exact current_endLoop h r
      · exact h
  | _ => exact absurd id hquiet

section Start

variable {removePositionalData : Bool} {anticheat : AnticheatConfig} {bans : BanList}

theorem current_new : (ServerState.new removePositionalData anticheat bans).Current :=
  fun _ _ hq => nomatch hq

-- Whoever is connected, has an open queue and missed nothing knows from its messages which
-- channels there are and where everyone is, in every orderly run.
theorem views_agree (hrun : Run Orderly (.new removePositionalData anticheat bans) labels s)
    {session : UInt32} (hr : s.clients.lookup session = some r)
    (hdropped : (s.get r).dropped = false) (hclosed : (s.get r).closed = false) :
    Directory.replay (s.get r).sent = s.directory := by
  have hboth : s.Current ∧ s.registry.Sound :=
    hrun.invariant (I := fun s : ServerState => s.Current ∧ s.registry.Sound) (P := fun _ => True)
      (fun _ hs hstep =>
        ⟨current_transition hs.1 hs.2 hstep, sound_transition hs.2 hstep.1⟩)
      (fun _ _ => trivial) ⟨current_new, sound_new removePositionalData anticheat bans⟩
  exact hboth.1 session r hr hdropped hclosed

end Start

-- Two clients connect, the first makes a channel and the second joins it there.
theorem views_agree_sample :
    (∃ labels, Run Orderly sampleServer labels (sampleServer.afterAll sampleChannelEvents)) ∧
    (sampleServer.afterAll sampleChannelEvents).clients.lookup 2 = some 1 ∧
    ((sampleServer.afterAll sampleChannelEvents).get 1).dropped = false ∧
    Directory.replay ((sampleServer.afterAll sampleChannelEvents).get 1).sent =
      (sampleServer.afterAll sampleChannelEvents).directory := by
  obtain ⟨labels, hrun⟩ :=
    run_orderly (show sampleServer.orderly sampleChannelEvents = true by decide +kernel)
  have hclient : (sampleServer.afterAll sampleChannelEvents).clients.lookup 2 = some 1 := by
    decide +kernel
  have hdropped : ((sampleServer.afterAll sampleChannelEvents).get 1).dropped = false := by
    decide +kernel
  exact ⟨⟨labels, hrun⟩, hclient, hdropped, views_agree hrun hclient hdropped (by decide +kernel)⟩

-- The join of a client that was disconnected is announced after it was taken away: who
-- replays the messages has a user that the server has not.
theorem dead_client_announced :
    (∃ labels, Run Orderly sampleServer labels sampleKicked) ∧
      sampleKicked.outcome 0 sampleGhostJoin = some (.ok ()) ∧
      (sampleKicked.after 0 sampleGhostJoin).clients.lookup 1 = some 0 ∧
      ((sampleKicked.after 0 sampleGhostJoin).get 0).dropped = false ∧
      ((sampleKicked.after 0 sampleGhostJoin).get 0).closed = false ∧
      (sampleKicked.after 0 sampleGhostJoin).directory.users 2 = none ∧
      (Directory.replay ((sampleKicked.after 0 sampleGhostJoin).get 0).sent).users 2 = some 0 := by
  refine ⟨run_sampleKicked, ?_⟩
  decide +kernel

end ServerState

end Mumble
