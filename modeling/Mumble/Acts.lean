import Mumble.Deeds.Steps

/-!
What becomes of the channels. Every event is a sequence of a few acts, in between which
nothing happens to them.
-/

namespace Mumble

open Mumble.Lib

inductive Act where
  | Idle
  | Welcome (username peerIp : String) (key : Vector UInt8 KEY_SIZE) (write : Writer) (now : Instant)
  | Create (r : ClientRef) (message : ChannelState)
  | Join (r : ClientRef) (k : UInt32)
  | Listen (r : ClientRef) (message : UserState)
  | Disconnect (session : UInt32)

namespace ServerState

variable {s s' s'' : ServerState} {r : ClientRef} {now : Instant}

def ActStep (s : ServerState) (act : Act) (s' : ServerState) : Prop :=
  match act with
  | .Idle => s'.channels = s.channels
  | .Welcome username peerIp key write now => s' = s.welcome username peerIp key write now
  | .Create r message => s' = (s.handleChannelState r message).1
  | .Join r k => s' = (s.setClientChannel r k).1
  | .Listen r message => s' = s.changeListeners r message
  | .Disconnect session => s' = s.disconnect session

-- One state comes from the other by acts.
def Acts (s s' : ServerState) : Prop := ∃ acts, Run ActStep s acts s'

namespace Acts

theorem refl (s : ServerState) : s.Acts s := ⟨[], .Done s⟩

theorem single (act : Act) (h : s.ActStep act s') : s.Acts s' := ⟨[act], .single h⟩

theorem trans (h : s.Acts s') (h' : s'.Acts s'') : s.Acts s'' := by
  obtain ⟨acts, hrun⟩ := h
  obtain ⟨acts', hrun'⟩ := h'
  exact ⟨acts ++ acts', hrun.append hrun'⟩

end Acts

-- What leaves the channels alone is idle.
theorem Does.acts (h : s.Does (fun _ _ _ => True) (fun part => part ≠ .Channels) s') : s.Acts s' :=
  .single .Idle (h.frame.channels (not_not.mpr rfl))

theorem lenient_all (now : Instant) : Lenient now fun _ _ _ => True := fun _ _ _ _ => trivial

theorem tells_all : Tells fun _ _ _ => True := fun _ _ _ _ _ => trivial

theorem acts_foldl_disconnect (s : ServerState) (sessions : List UInt32) :
    s.Acts (sessions.foldl (fun s session => s.disconnect session) s) := by
  induction sessions generalizing s with
  | nil => exact .refl s
  | cons session sessions ih => exact (Acts.single (.Disconnect session) rfl).trans (ih _)

theorem acts_endLoop (s : ServerState) (r : ClientRef) : s.Acts (s.endLoop r) :=
  (Does.acts (does_modify (.one .Finish trivial))).trans
    (.single (.Disconnect _) rfl)

theorem acts_handleUserState (s : ServerState) (r : ClientRef) (message : UserState) :
    s.Acts (s.handleUserState r message).1 := by
  have hupdate : s.Acts (s.modify r fun c => c.update message) :=
    (does_update (fun _ _ _ => trivial) fun _ _ => trivial).acts
  have hlisten (s : ServerState) : s.Acts (s.changeListeners r message) :=
    .single (.Listen r message) rfl
  rcases handleUserState_cases s r message with
    hsame | ⟨-, ⟨k, -, hfailed⟩ | hstayed | ⟨k, -, -, hjoined⟩⟩
  · rw [hsame]
    exact .refl s
  · rw [hfailed]
    exact hupdate.trans (does_recordChannel (lenient_all 0) _ r k).acts
  · rw [hstayed]
    exact hupdate.trans (hlisten _)
  · rw [hjoined]
    exact (hupdate.trans (.single (.Join r k) rfl)).trans (hlisten _)

theorem acts_handleNewClient (username peerIp : String) (key : Vector UInt8 KEY_SIZE)
    (write : Writer) : s.Acts (s.handleNewClient username peerIp key write now).1 := by
  have hrun := (does_clientRun (lenient_all 0) tells_all
    (s.welcome username peerIp key write now) s.next fun _ _ _ => trivial).acts
  have hwelcome : s.Acts (s.welcome username peerIp key write now) :=
    .single (.Welcome username peerIp key write now) rfl
  rcases handleNewClient_cases username peerIp key write with
    hsame | ⟨-, ⟨-, hserved⟩ | ⟨t, error, hlost, hend⟩⟩
  · rw [hsame]
    exact .refl s
  · rw [hserved] at hrun
    exact hwelcome.trans hrun
  · rw [hlost] at hrun
    rw [hend]
    exact (hwelcome.trans hrun).trans (acts_endLoop t _)

theorem acts_cleanRun (s : ServerState) (now : Instant) : s.Acts (s.cleanRun now).1 := by
  obtain ⟨made, -, t, rfl, hend⟩ := cleanRun_cases s now
  have hqueue : s.Acts { s with disconnectQueue := ∅ } := .single .Idle rfl
  have hresets := hqueue.trans
    (does_foldl (fun t r => does_resetClientCrypt (lenient_all now) t r) _ made).acts
  rcases hend with ⟨-, hdone⟩ | hwaiting
  · rw [hdone]
    exact hresets.trans (acts_foldl_disconnect _ _)
  · rw [hwaiting]
    exact hresets

theorem step_acts {e : Event} {result : MumbleResult} (hindexed : s.registry.Indexed)
    (h : s.step now e = .ok (s', result)) : s.Acts s' := by
  by_cases htouches : Touches e .Channels
  · cases e with
    | Connect username peerIp key write =>
        have hconnect : s.Acts (s.handleNewClient username peerIp key write now).1 :=
          acts_handleNewClient username peerIp key write
        rw [Except.ok.inj h] at hconnect
        exact hconnect
    | Tcp r frame =>
        rcases readFrame_cases h with ⟨-, s₁, hframe, rfl⟩ | ⟨rfl, -⟩
        · refine Acts.trans ?_ (does_countFailure s₁ r .Tcp result (fun _ _ _ => trivial)
            fun _ => trivial).acts
          cases handleFrame_step hframe with
          | Nothing => exact .refl s
          | ChannelState message => exact .single (.Create r message) rfl
          | UserState message => exact acts_handleUserState s r message
          | Voice | Ping | CryptSetup | PermissionQuery | VoiceTarget | UserStats => cases htouches
        · exact .refl _
    | CleanRun =>
        have hclean := acts_cleanRun s now
        rw [Except.ok.inj h] at hclean
        exact hclean
    | EndLoop r =>
        cases h
        split_ifs
        · exact acts_endLoop s r
        · exact .refl s
    | Consume | Udp | Quit | Network | Admin | Flag => cases htouches
  · obtain ⟨t, hbegins, hdoes⟩ := step_does hindexed h
    exact .single .Idle ((hdoes.frame.channels htouches).trans hbegins.same.1)

-- Every run of the server is made of acts.
theorem run_acts {labels : List Label} (hsound : s.registry.Sound)
    (hrun : Run Transition s labels s') : s.Acts s' := by
  have hboth := hrun.invariant (I := fun t => t.registry.Sound ∧ s.Acts t) (P := fun _ => True)
    (fun _ ht hstep => ⟨sound_transition ht.1 hstep, ht.2.trans (step_acts ht.1.indexed hstep.step)⟩)
    (fun _ _ => trivial) ⟨hsound, .refl s⟩
  exact hboth.2

end ServerState

end Mumble
