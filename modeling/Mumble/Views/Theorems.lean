import Mumble.Views

namespace Mumble

open Mumble.Lib

namespace ServerState

variable {s s' : ServerState} {r : ClientRef} {k session : UInt32} {d : Directory}
  {message : ServerMessage} {now : Instant}

-- Everyone who is there was told the same.
def Told (s : ServerState) (d : Directory) : Prop :=
  ∀ session r, s.registry.clients session = some r → (s.get r).Sees d

-- What everyone was told is how things are.
def Current (s : ServerState) : Prop := s.Told s.directory

theorem directory_of_registry (h : s'.registry = s.registry) : s'.directory = s.directory := by
  rw [← registry_directory, h, registry_directory]

theorem Told.of_sends (h : s.Told d) (hsends : Sends ClientMessage.Quiet s s')
    (hclients : ∀ session q, s'.registry.clients session = some q →
      s.registry.clients session = some q) : s'.Told d :=
  fun session q hq => (h session q (hclients session q hq)).of_extends (hsends q)

-- Something happens that changes neither the directory nor who is there.
theorem Current.of_sends (h : s.Current) (hsends : Sends ClientMessage.Quiet s s')
    (hclients : s'.registry.clients = s.registry.clients)
    (hdirectory : s'.directory = s.directory) : s'.Current := by
  unfold Current
  rw [hdirectory]
  refine Told.of_sends h hsends fun session q hq => ?_
  rw [hclients] at hq
  exact hq

theorem Current.of_registry (h : s.Current) (hsends : Sends ClientMessage.Quiet s s')
    (hregistry : s'.registry = s.registry) : s'.Current :=
  h.of_sends hsends (by rw [hregistry]) (directory_of_registry hregistry)

theorem sees_broadcastMessage {q : ClientRef} (h : (s.get q).Sees d)
    (hq : s.registry.clients session = some q) (message : ServerMessage) :
    ((s.broadcastMessage message).get q).Sees (d.apply message) := by
  have hmem : q ∈ s.clients.values := HashIndex.mem_values.mpr ⟨session, hq⟩
  exact sees_foldl_trySend hmem h

theorem told_broadcastMessage (h : s.Told d) (message : ServerMessage) :
    (s.broadcastMessage message).Told (d.apply message) := by
  intro session q hq
  rw [registry_broadcastMessage] at hq
  exact sees_broadcastMessage (h session q hq) hq message

-- A broadcast makes the views current when it says what has changed.
theorem current_broadcastMessage (h : s.Told d) (hd : d.apply message = s.directory) :
    (s.broadcastMessage message).Current := by
  unfold Current
  rw [directory_of_registry (registry_broadcastMessage s message), ← hd]
  exact told_broadcastMessage h message

-- Channels go.

theorem current_deleteChannel (h : s.Current) (k : UInt32) : (s.deleteChannel k).Current := by
  have htold : { s with channels := s.channels.erase k }.Told s.directory := h
  refine current_broadcastMessage htold ?_
  apply Directory.ext
  · funext k'
    by_cases hk : k' = k
    · subst hk
      simp [Directory.apply, directory, ChannelMap.contains]
    · simp [Directory.apply, directory, ChannelMap.contains, hk, ChannelMap.lookup_erase_ne hk]
  · rfl

-- The members or listeners of channels change, and nobody is told.
theorem Current.of_heap (h : s.Current) (hheap : s'.heap = s.heap)
    (hclients : s'.registry.clients = s.registry.clients)
    (hchannels : ∀ k, s'.channels.contains k = s.channels.contains k) : s'.Current := by
  have hdirectory : s'.directory = s.directory := by
    apply Directory.ext
    · exact funext hchannels
    · funext session
      have hget (q : ClientRef) : s'.get q = s.get q := congrFun hheap q
      have hlook : s'.clients.lookup session = s.clients.lookup session :=
        congrFun hclients session
      simp only [directory, hlook, hget]
  intro session q hq
  rw [hclients] at hq
  rw [hdirectory, show s'.get q = s.get q from congrFun hheap q]
  exact h session q hq

theorem contains_alterClients (m : ChannelMap) (k k' : UInt32)
    (f : HashIndex UInt32 ClientRef → HashIndex UInt32 ClientRef) :
    (m.alterClients k f).contains k' = m.contains k' := by
  unfold ChannelMap.contains
  by_cases hk : k' = k
  · subst hk
    rw [ChannelMap.alterClients, ChannelMap.lookup_alter_self, Option.isSome_map]
  · rw [ChannelMap.alterClients, ChannelMap.lookup_alter_ne hk]

theorem current_handleClientLeftChannel (h : s.Current) (session k : UInt32) :
    (s.handleClientLeftChannel session k).1.Current := by
  have herased : { s with
      channels := s.channels.alterClients k fun m => m.erase session }.Current :=
    h.of_heap rfl rfl fun k' => contains_alterClients s.channels k k' _
  unfold handleClientLeftChannel
  split
  · dsimp only
    split_ifs
    · exact herased
    · exact current_deleteChannel herased k
  · exact current_deleteChannel h k

-- A client joins a channel.

theorem directory_enterChannel (hindexed : s.registry.Indexed) (hrun : s.registry.Running r)
    (k : UInt32) : (s.enterChannel r k).directory =
      s.directory.apply (.UserState ((s.enterChannel r k).get r).getUserState) := by
  have hself : (s.enterChannel r k).get r = { s.get r with channelId := k } :=
    get_modify_self s r fun c => { c with channelId := k }
  have hother {q : ClientRef} (hq : q ≠ r) : (s.enterChannel r k).get q = s.get q :=
    get_modify_ne (fun c => { c with channelId := k }) hq
  rw [hself]
  apply Directory.ext
  · exact funext fun k' => contains_alterClients s.channels k k' _
  · funext session
    by_cases hsession : session = (s.get r).sessionId
    · subst hsession
      have hlook : s.clients.lookup (s.get r).sessionId = some r := hindexed.running hrun
      have hlook' : (s.enterChannel r k).clients.lookup (s.get r).sessionId = some r := hlook
      simp only [directory, Directory.apply, Client.getUserState, hlook', Option.map_some, hself,
        Function.update_self]
    · have hsame : (s.enterChannel r k).clients.lookup session = s.clients.lookup session := rfl
      simp only [directory, Directory.apply, Client.getUserState, hsame]
      rw [Function.update_of_ne hsession]
      cases hlook : s.clients.lookup session with
      | none => rfl
      | some q =>
          have hqr : q ≠ r := by
            rintro rfl
            exact hsession (hindexed.connected hlook).2.symm
          simp only [Option.map_some, hother hqr]

theorem current_setClientChannel (h : s.Current) (hindexed : s.registry.Indexed)
    (hrun : s.registry.Running r) (hlook : s.channels.lookup k ≠ none) :
    (s.setClientChannel r k).1.Current := by
  have htold : (s.enterChannel r k).Told s.directory := by
    have hmoved : Sends ClientMessage.Quiet s (s.recordChannel r k) :=
      sends_modify (fun _ => rfl) (fun _ => rfl) fun _ => rfl
    exact Told.of_sends h (hmoved.trans (.of_heap rfl)) fun session q hq => hq
  have hannounced : (s.announceJoin r k).Current :=
    current_broadcastMessage htold (directory_enterChannel hindexed hrun k).symm
  rw [setClientChannel_some r hlook]
  dsimp only
  split_ifs
  · exact hannounced
  · exact current_handleClientLeftChannel hannounced _ _

-- A client goes. Everyone else knew the same as of it, up to whether it was there.

theorem directory_detachClient (hlook : s.registry.clients session = some r) :
    (s.detachClient r session).directory =
      s.directory.apply (.UserRemove ⟨session, some "Disconnected"⟩) := by
  rw [← registry_directory, registry_detachClient hlook, ← registry_directory]
  apply Directory.ext
  · rfl
  · funext other
    have hchannel (q : ClientRef) : ((s.registry.setEntry r fun e =>
        { e with cancelled := true, udpSocketAddr := none }).entry q).channelId =
          (s.registry.entry q).channelId :=
      Registry.setEntry_field (fun e => e.channelId) (by intro e; rfl) q
    by_cases hother : other = session
    · subst hother
      simp [Registry.directory, Directory.apply]
    · simp [Registry.directory, Directory.apply, hother, Registry.release, hchannel]

theorem lenient_quiet (now : Instant) : Lenient now (Sending ClientMessage.Quiet) :=
  lenient_sending ClientMessage.quiet_of_not_news

theorem current_disconnect (hlook : s.registry.clients session = some r)
    (htold : ∀ other q, other ≠ session → s.registry.clients other = some q → (s.get q).Sees d)
    (hd : d.apply (.UserRemove ⟨session, some "Disconnected"⟩) =
      s.directory.apply (.UserRemove ⟨session, some "Disconnected"⟩)) :
    (s.disconnect session).Current := by
  have hquiet : Sends ClientMessage.Quiet s (s.detachClient r session) :=
    (does_detachClient (K := fun _ => True) (lenient_quiet 0) s r session).sends fun hd => hd
  have hdetached : (s.detachClient r session).Told d := by
    intro other q hq
    rw [registry_detachClient hlook] at hq
    obtain ⟨hne, hq⟩ := Registry.erase_eq_some.mp hq
    exact (htold other q hne hq).of_extends (hquiet q)
  have hremoved : ((s.detachClient r session).broadcastMessage
      (.UserRemove ⟨session, some "Disconnected"⟩)).Current :=
    current_broadcastMessage hdetached (hd.trans (directory_detachClient hlook).symm)
  have hleft : ((s.detachClient r session).broadcastClientDelete session
      (s.get r).channelId).Current := current_handleClientLeftChannel hremoved _ _
  have hsome : s.clients.lookup session = some r := hlook
  unfold disconnect
  rw [hsome]
  dsimp only
  split
  · rename_i c _
    exact hleft.of_heap rfl rfl fun k' => contains_alterClients _ c.id k' _
  · exact hleft

theorem disconnect_none (h : s.registry.clients session = none) : s.disconnect session = s := by
  have hnone : s.clients.lookup session = none := h
  rw [disconnect, hnone]

theorem Current.disconnect (h : s.Current) (session : UInt32) : (s.disconnect session).Current := by
  cases hlook : s.registry.clients session with
  | none =>
      rw [disconnect_none hlook]
      exact h
  | some r => exact current_disconnect hlook (fun other q _ hq => h other q hq) rfl

-- The tasks of a client are stopped.
theorem sends_finish (s : ServerState) (r : ClientRef) : Sends ClientMessage.Quiet s
    (s.modify r fun c => { c with stopped := true, closed := true, finished := true }) := by
  have hdoes : s.Does (Sending ClientMessage.Quiet) (fun _ => False)
      (s.modify r fun c => { c with stopped := true, closed := true, finished := true }) :=
    does_modify (.one .Finish fun _ hmessage => nomatch hmessage)
  exact hdoes.sends fun hd => hd

theorem current_endLoop (h : s.Current) (r : ClientRef) : (s.endLoop r).Current := by
  have hfinished : (s.modify r fun c =>
      { c with stopped := true, closed := true, finished := true }).Current :=
    h.of_registry (sends_finish s r) (registry_modify_same fun _ => rfl)
  exact hfinished.disconnect _

theorem current_countFailure (h : s.Current) (r : ClientRef) (loop : Loop) (result : MumbleResult) :
    (s.countFailure r loop result).Current := by
  have hdoes : s.Does (Sending ClientMessage.Quiet) (fun _ => False)
      (s.countFailure r loop result) := by
    refine does_countFailure s r loop result (fun _ _ _ _ hmessage => nomatch hmessage) ?_
    cases loop <;> exact fun _ _ hmessage => nomatch hmessage
  exact h.of_registry (hdoes.sends fun hd => hd) (registry_countFailure ..)

end ServerState

-- The operations that neither bring nor take clients and channels, nor move anyone.
def Registry.Op.Quiet : Registry.Op → Prop
  | .SetMute _ _ | .SetDeaf _ _ | .Listen _ _ | .Unlisten _ _ | .Bind _ _ | .Unbind _ => True
  | _ => False

theorem Registry.directory_setRoom {g : Registry} {k : UInt32} {f : Room → Room} :
    (g.setRoom k fun room => some (f room)).directory = g.directory := by
  apply Directory.ext
  · funext k'
    by_cases hk : k' = k
    · subst hk
      simp only [directory, setRoom_channels_self]
      cases g.channels k' <;> rfl
    · simp only [directory, setRoom_channels_ne _ hk]
  · rfl

theorem Registry.Step.quiet {g g' : Registry} {op : Registry.Op} (h : g.Step op g')
    (hop : op.Quiet) : g'.clients = g.clients ∧ g'.directory = g.directory := by
  obtain ⟨-, rfl⟩ := h
  cases op with
  | SetMute r b | SetDeaf r b | Bind r addr | Unbind r =>
      exact ⟨rfl, directory_congr rfl rfl (Op.entry_field (fun e => e.channelId) fun _ => rfl)⟩
  | Listen r k | Unlisten r k => exact ⟨rfl, directory_setRoom⟩
  | Add _ | Join _ _ _ | FailJoin _ _ | Create _ _ _ | Drop _ => exact absurd hop id

namespace ServerState

variable {s s' : ServerState} {r : ClientRef} {k session : UInt32} {d : Directory}
  {message : ServerMessage} {now : Instant}

theorem Current.of_follows (h : s.Current) (hsends : Sends ClientMessage.Quiet s s')
    (hfollows : Follows Registry.Op.Quiet s s') : s'.Current := by
  have hsame := hfollows.invariant
    (I := fun g => g.clients = s.registry.clients ∧ g.directory = s.registry.directory)
    (fun hop hg hstep => ⟨(hstep.quiet hop).1.trans hg.1, (hstep.quiet hop).2.trans hg.2⟩)
    ⟨rfl, rfl⟩
  refine h.of_sends hsends hsame.1 ?_
  rw [← registry_directory, hsame.2, registry_directory]

theorem sound_follows {P : Registry.Op → Prop} (h : s.registry.Sound) (hfollows : Follows P s s') :
    s'.registry.Sound := hfollows.invariant (fun _ hg hstep => hg.step hstep) h

-- A client makes a channel, which everyone is told, and joins it.

theorem current_announceChannel (h : s.Current) {message : ChannelState}
    (htemporary : message.temporary.getD false = true) :
    (s.announceChannel message).Current := by
  have hregistry := registry_addChannel s message htemporary
  have hadded : (s.addChannel message).1.Told s.directory := by
    refine Told.of_sends h (.of_heap rfl) fun session q hq => ?_
    rw [hregistry] at hq
    exact hq
  refine current_broadcastMessage hadded ?_
  · have hid : (s.addChannel message).2.getChannelState.channelId =
        some (s.addChannel message).2.id := (s.addChannel message).2.cached
    rw [← registry_directory s, ← registry_directory (s.addChannel message).1, hregistry]
    simp only [Directory.apply, hid]
    apply Directory.ext
    · funext k
      by_cases hk : k = (s.addChannel message).2.id
      · subst hk
        simp [Registry.directory]
      · simp [Registry.directory, hk, Registry.create_channels_ne hk]
    · rfl

theorem current_handleChannelState (h : s.Current) (hsound : s.registry.Sound)
    (hrun : s.registry.Running r) (message : ChannelState) :
    (s.handleChannelState r message).1.Current := by
  rcases handleChannelState_cases s r message with hsame | ⟨⟨-, -, -, htemporary, -, -, -⟩, hmade⟩
  · rw [hsame]
    exact h
  · have hregistry := registry_announceChannel (s := s) htemporary
    rw [hmade]
    refine current_setClientChannel (current_announceChannel h htemporary) ?_ ?_
      (lookup_announceChannel htemporary)
    · rw [hregistry]
      exact hsound.indexed.withChannels _
    · rw [hregistry]
      exact hrun

theorem current_changeListeners (h : s.Current) (hr : r < s.next) (message : UserState) :
    (s.changeListeners r message).Current := by
  have hdoes := does_changeListeners (A := Sending ClientMessage.Quiet) (K := fun _ => True) trivial
    s r message
  exact h.of_follows (hdoes.sends fun hd => hd)
    (follows_changeListeners message hr (fun _ => trivial) fun _ => trivial)

theorem current_handleUserState (h : s.Current) (hsound : s.registry.Sound) (hr : r < s.next)
    (message : UserState) (hrun : message.channelId.isSome → s.registry.Running r)
    (hresult : (s.handleUserState r message).2 ≠ .error .ChannelDoesntExist) :
    (s.handleUserState r message).1.Current := by
  have hfollows : Follows Registry.Op.Quiet s (s.modify r fun c => c.update message) := by
    rw [modify_update]
    exact (follows_modify_mute message.mute fun _ _ => trivial).trans
      (follows_modify_deaf message.deaf fun _ => trivial)
  have hdoes : s.Does (Sending ClientMessage.Quiet) (fun _ => False)
      (s.modify r fun c => c.update message) :=
    does_update (fun _ _ _ _ hmessage => nomatch hmessage) fun _ _ _ hmessage => nomatch hmessage
  have hupdated := h.of_follows (hdoes.sends fun hd => hd) hfollows
  have hsound' := sound_follows hsound hfollows
  have hr' : r < (s.modify r fun c => c.update message).next := hr
  rcases handleUserState_cases s r message with
    hsame | ⟨-, ⟨k, -, hfailed⟩ | hstayed | ⟨k, hk, hlook, hjoined⟩⟩
  · rw [hsame]
    exact h
  · rw [hfailed] at hresult
    exact absurd rfl hresult
  · rw [hstayed]
    exact current_changeListeners hupdated hr' message
  · rw [hjoined]
    have hrun' := running_modify_update message (hrun (hk ▸ rfl))
    refine current_changeListeners (current_setClientChannel hupdated hsound'.indexed hrun' hlook) ?_
      message
    change r < ((s.modify r fun c => c.update message).setClientChannel r k).1.registry.next
    rw [registry_setClientChannel_some r hlook]
    exact (hrun'.join k).1

end ServerState

end Mumble
