import Mumble.Tasks

namespace Mumble

open Mumble.Lib

namespace ServerState

-- The clients, their count and their session ids are the same.
structure SameClients (s s' : ServerState) : Prop where
  clients : s'.clients = s.clients
  activeClients : s'.activeClients = s.activeClients
  sessionCount : s'.sessionCount = s.sessionCount
  next : s'.next = s.next
  sessionId : ∀ r, (s'.get r).sessionId = (s.get r).sessionId

theorem SameClients.refl (s : ServerState) : s.SameClients s := ⟨rfl, rfl, rfl, rfl, fun _ => rfl⟩

theorem sessionId_set {s : ServerState} {r : ClientRef} {c : Client}
    (h : c.sessionId = (s.get r).sessionId) (r' : ClientRef) :
    ((s.set r c).get r').sessionId = (s.get r').sessionId := by
  by_cases hr : r' = r
  · subst hr
    simp [set, get] at h ⊢
    exact h
  · simp [set, get, hr]

theorem SameClients.set {s : ServerState} {r : ClientRef} {c : Client}
    (h : c.sessionId = (s.get r).sessionId) : s.SameClients (s.set r c) :=
  ⟨rfl, rfl, rfl, rfl, sessionId_set h⟩

end ServerState

open ServerState (SameClients)

-- What a step of a broadcast does: messages go out, and whoever does not take one
-- is put in the queue of clients to disconnect.
theorem Telling.next_same {message : ServerMessage} {s s' : ServerState} {choice : Choice}
    {stage : Telling} {stage' : Option Telling}
    (h : stage.next message s choice = some (s', stage')) :
    s.SameClients s' ∧ s'.channels = s.channels ∧ s'.channelCount = s.channelCount := by
  cases stage with
  | Walk =>
      simp only [Telling.next] at h
      split at h
      · split_ifs at h
        cases h
        exact ⟨.refl _, rfl, rfl⟩
      · cases h
        exact ⟨.refl _, rfl, rfl⟩
      · cases h
  | Send r =>
      have hsession : ((s.get r).trySend (.SendMessage message)).1.sessionId =
          (s.get r).sessionId := by
        unfold Client.trySend
        split_ifs <;> rfl
      cases h
      exact ⟨.set hsession, rfl, rfl⟩
  | Queue sessionId =>
      cases h
      exact ⟨⟨rfl, rfl, rfl, rfl, fun _ => rfl⟩, rfl, rfl⟩

-- Which entry of the map of channels a task holds.

def Leaving.holds : Leaving → Bool
  | .Remove => true
  | .Check => true
  | _ => false

def Task.holds : Task → Option UInt32
  | .Client _ channelId (.Insert _) => some channelId
  | .Client _ _ (.Leave channelId stage) => if stage.holds then some channelId else none
  | .Disconnect _ (.Leave channelId stage) => if stage.holds then some channelId else none
  | _ => none

-- The ways a step can treat the locks.
inductive LockStep (s s' : Shared) : Option UInt32 → Option UInt32 → Prop where
  | Same {held : Option UInt32} (hheld : s'.held = s.held) : LockStep s s' held held
  | Take {k : UInt32} (hfree : s.held k = false) (hthere : s'.state.channels.contains k = true)
      (hheld : s'.held = Function.update s.held k true) : LockStep s s' none (some k)
  | Give {k : UInt32} (hheld : s'.held = Function.update s.held k false) :
      LockStep s s' (some k) none

-- What a step of `handle_client_left_channel` does to the state: it takes the
-- client out of the channel, or deletes the channel while nobody holds it.
inductive LeaveStep (clientSession k : UInt32) (s s' : Shared) : Leaving → Prop where
  | Same {stage : Leaving} (hchannels : s'.state.channels = s.state.channels) :
      LeaveStep clientSession k s s' stage
  | Remove (hchannels : s'.state.channels =
      s.state.channels.alterClients k fun m => m.erase clientSession) :
      LeaveStep clientSession k s s' .Remove
  | Delete (hfree : ¬(s.state.channels.contains k = true ∧ s.held k = true))
      (hchannels : s'.state.channels = s.state.channels.erase k) :
      LeaveStep clientSession k s s' .Delete

-- A call that has returned holds nothing.
def Leaving.lock (k : UInt32) : Option Leaving → Option UInt32
  | some stage => if stage.holds then some k else none
  | none => none

theorem Leaving.next_spec {clientSession k : UInt32} {s s' : Shared} {choice : Choice}
    {stage : Leaving} {stage' : Option Leaving}
    (h : stage.next clientSession k s choice = some (s', stage')) :
    s.state.SameClients s'.state ∧ LeaveStep clientSession k s s' stage ∧
      LockStep s s' (if stage.holds then some k else none) (Leaving.lock k stage') ∧
      s'.state.channelCount = s.state.channelCount := by
  cases stage with
  | Enter =>
      simp only [Leaving.next] at h
      split at h
      next c hlookup =>
        split_ifs at h with hheld
        cases h
        have hthere : s.state.channels.contains k = true := by simp [ChannelMap.contains, hlookup]
        exact ⟨.refl _, .Same rfl, .Take (by simpa using hheld) hthere rfl, rfl⟩
      next =>
        cases h
        exact ⟨.refl _, .Same rfl, .Same rfl, rfl⟩
  | Remove =>
      cases h
      exact ⟨⟨rfl, rfl, rfl, rfl, fun _ => rfl⟩, .Remove rfl, .Same rfl, rfl⟩
  | Check =>
      simp only [Leaving.next] at h
      split at h
      · split_ifs at h <;> (cases h; exact ⟨.refl _, .Same rfl, .Give rfl, rfl⟩)
      · cases h
  | Delete =>
      simp only [Leaving.next] at h
      split_ifs at h with hheld
      cases h
      exact ⟨⟨rfl, rfl, rfl, rfl, fun _ => rfl⟩, .Delete (by simpa using hheld) rfl, .Same rfl, rfl⟩
  | Tell stage =>
      obtain ⟨⟨next, told⟩, hnext, heq⟩ := Option.map_eq_some_iff.mp h
      cases heq
      obtain ⟨hsame, hchannels, hcount⟩ := Telling.next_same hnext
      exact ⟨hsame, .Same hchannels, by cases told <;> exact .Same rfl, hcount⟩

-- The steps of a task are those of the operation it is in.

namespace Task

variable {s s' : Shared} {choice : Choice} {t t' : Task}

theorem next_client {r : ClientRef} {k : UInt32} {stage : Joining}
    (h : next s choice (.Client r k stage) = some (s', t')) :
    (∃ result k', stage = .Done result ∧ s' = s ∧ t' = .Client r k' .Load) ∨
    ∃ stage', stage.next r k s choice = some (s', stage') ∧ t' = .Client r k stage' := by
  by_cases hdone : ∃ result, stage = .Done result
  · obtain ⟨result, rfl⟩ := hdone
    simp only [next] at h
    split at h
    · cases h
      exact .inl ⟨result, _, rfl, rfl, rfl⟩
    · cases h
  · right
    have hmap : next s choice (.Client r k stage) =
        (stage.next r k s choice).map fun next => (next.1, .Client r k next.2) := by
      cases stage <;> first | rfl | exact absurd ⟨_, rfl⟩ hdone
    rw [hmap] at h
    obtain ⟨⟨next, stage'⟩, hnext, heq⟩ := Option.map_eq_some_iff.mp h
    cases heq
    exact ⟨stage', hnext, rfl⟩

theorem next_disconnect {x : UInt32} {stage : Disconnecting}
    (h : next s choice (.Disconnect x stage) = some (s', t')) :
    ∃ stage', stage.next x s choice = some (s', stage') ∧ t' = .Disconnect x stage' := by
  obtain ⟨⟨next, stage'⟩, hnext, heq⟩ := Option.map_eq_some_iff.mp h
  cases heq
  exact ⟨stage', hnext, rfl⟩

theorem next_connect {newcomer : Newcomer} {stage : Connecting}
    (h : next s choice (.Connect newcomer stage) = some (s', t')) :
    ∃ stage', stage.next newcomer s choice = some (s', stage') ∧ t' = .Connect newcomer stage' := by
  obtain ⟨⟨next, stage'⟩, hnext, heq⟩ := Option.map_eq_some_iff.mp h
  cases heq
  exact ⟨stage', hnext, rfl⟩

-- The task takes a session out of the clients of a channel.
def Erases (s : ServerState) (sessionId k : UInt32) : Task → Prop
  | .Client r _ (.Leave k' .Remove) => (s.get r).sessionId = sessionId ∧ k' = k
  | .Disconnect x (.Leave k' .Remove) => x = sessionId ∧ k' = k
  | .Disconnect x (.Retain k') => x = sessionId ∧ k' = k
  | _ => False

-- The channel that the task is about to delete.
def deletes : Task → Option UInt32
  | .Client _ _ (.Leave k .Delete) => some k
  | .Disconnect _ (.Leave k .Delete) => some k
  | _ => none

end Task

-- The ways a step of a task can change the channels.
inductive ChannelStep (s s' : Shared) : Task → Prop where
  | Same {t : Task} (hchannels : s'.state.channels = s.state.channels) : ChannelStep s s' t
  | Insert {r : ClientRef} {k : UInt32} {leave : Option UInt32}
      (hchannels : s'.state.channels =
        s.state.channels.alterClients k (HashIndex.insertNew (s.state.get r).sessionId r)) :
      ChannelStep s s' (.Client r k (.Insert leave))
  | Remove {t : Task} {sessionId k : UInt32} (ht : t.Erases s.state sessionId k)
      (hchannels : s'.state.channels =
        s.state.channels.alterClients k fun m => m.erase sessionId) : ChannelStep s s' t
  | Delete {t : Task} {k : UInt32} (ht : t.deletes = some k)
      (hfree : ¬(s.state.channels.contains k = true ∧ s.held k = true))
      (hchannels : s'.state.channels = s.state.channels.erase k) : ChannelStep s s' t

theorem LeaveStep.channelStep {clientSession k : UInt32} {s s' : Shared} {stage : Leaving}
    (h : LeaveStep clientSession k s s' stage) {t : Task}
    (hremove : stage = .Remove → t.Erases s.state clientSession k)
    (hdelete : stage = .Delete → t.deletes = some k) : ChannelStep s s' t := by
  cases h with
  | Same hchannels => exact .Same hchannels
  | Remove hchannels => exact .Remove (hremove rfl) hchannels
  | Delete hfree hchannels => exact .Delete (hdelete rfl) hfree hchannels

theorem Joining.holds_afterTell (r : ClientRef) (k : UInt32) (leave : Option UInt32) :
    (Task.Client r k (afterTell k leave)).holds = none := by
  unfold afterTell
  split
  · rfl
  · split_ifs <;> rfl

theorem Joining.next_spec {r : ClientRef} {k : UInt32} {s s' : Shared} {choice : Choice}
    {stage stage' : Joining} (h : stage.next r k s choice = some (s', stage')) :
    s.state.SameClients s'.state ∧ ChannelStep s s' (.Client r k stage) ∧
      LockStep s s' (Task.Client r k stage).holds (Task.Client r k stage').holds ∧
      s'.state.channelCount = s.state.channelCount := by
  cases stage with
  | Load =>
      cases h
      refine ⟨.refl _, .Same rfl, ?_, rfl⟩
      split_ifs <;> exact .Same rfl
  | Store current =>
      cases h
      exact ⟨.set rfl, .Same rfl, .Same rfl, rfl⟩
  | Find leave =>
      simp only [Joining.next] at h
      split at h
      next c hlookup =>
        split_ifs at h with hheld
        cases h
        have hthere : s.state.channels.contains k = true := by simp [ChannelMap.contains, hlookup]
        exact ⟨.refl _, .Same rfl, .Take (by simpa using hheld) hthere rfl, rfl⟩
      next =>
        cases h
        exact ⟨.refl _, .Same rfl, .Same rfl, rfl⟩
  | Insert leave =>
      cases h
      exact ⟨⟨rfl, rfl, rfl, rfl, fun _ => rfl⟩, .Insert rfl, .Give rfl, rfl⟩
  | Read leave =>
      cases h
      exact ⟨.refl _, .Same rfl, .Same rfl, rfl⟩
  | Tell leave userState stage =>
      obtain ⟨⟨next, told⟩, hnext, heq⟩ := Option.map_eq_some_iff.mp h
      cases heq
      obtain ⟨hsame, hchannels, hcount⟩ := Telling.next_same hnext
      refine ⟨hsame, .Same hchannels, ?_, hcount⟩
      cases told with
      | none =>
          simp only [holds_afterTell]
          exact .Same rfl
      | some stage => exact .Same rfl
  | Leave leaveChannelId stage =>
      obtain ⟨⟨next, left⟩, hnext, heq⟩ := Option.map_eq_some_iff.mp h
      cases heq
      obtain ⟨hsame, hleave, hlock, hcount⟩ := Leaving.next_spec hnext
      refine ⟨hsame, hleave.channelStep ?_ ?_, ?_, hcount⟩
      · rintro rfl
        exact ⟨rfl, rfl⟩
      · rintro rfl
        rfl
      · cases left <;> exact hlock
  | Done result => cases h

-- The client is out of the map, and this call took it out.
def Disconnecting.removed : Disconnecting → Bool
  | .Lookup => false
  | .Upgrade _ => false
  | .Remove _ => false
  | .Done => false
  | _ => true

-- The client is out of the map and still counted.
def Disconnecting.removing : Disconnecting → Bool
  | .Load _ => true
  | .RemoveUdp _ _ => true
  | .Count _ _ => true
  | _ => false

-- What a step of `disconnect` does to the clients.
inductive DisconnectStep (x : UInt32) (s s' : ServerState) :
    Disconnecting → Disconnecting → Prop where
  | Found {r : ClientRef} (hlookup : s.clients.lookup x = some r) (hsame : s.SameClients s') :
      DisconnectStep x s s' .Lookup (.Upgrade r)
  | Absent (hlookup : s.clients.lookup x = none) (hsame : s.SameClients s') :
      DisconnectStep x s s' .Lookup (.Remove none)
  | Alive {r : ClientRef} (hsame : s.SameClients s') :
      DisconnectStep x s s' (.Upgrade r) (.Remove (some r))
  | Dead {r : ClientRef} (hgone : r ∉ s.clients.values) (hsame : s.SameClients s') :
      DisconnectStep x s s' (.Upgrade r) (.Remove none)
  | Removed {r : ClientRef} (hmem : x ∈ s.clients)
      (heq : s' = { s with clients := s.clients.erase x }) :
      DisconnectStep x s s' (.Remove (some r)) (.Load r)
  | Unclaimed (hmem : x ∈ s.clients) (heq : s' = { s with clients := s.clients.erase x }) :
      DisconnectStep x s s' (.Remove none) .Done
  | Gone {client : Option ClientRef} (hmem : x ∉ s.clients) (hsame : s.SameClients s') :
      DisconnectStep x s s' (.Remove client) .Done
  | Counted {r : ClientRef} {k : UInt32}
      (heq : s' = { s with activeClients := s.activeClients - 1 }) :
      DisconnectStep x s s' (.Count r k) (.Cancel r k)
  | On {stage stage' : Disconnecting} (hremoved : stage.removed = true)
      (hlater : stage'.removed = true ∨ stage' = .Done)
      (hremoving : stage'.removing = stage.removing) (hsame : s.SameClients s') :
      DisconnectStep x s s' stage stage'

theorem Disconnecting.next_spec {x : UInt32} {s s' : Shared} {choice : Choice}
    {stage stage' : Disconnecting} (h : stage.next x s choice = some (s', stage')) :
    DisconnectStep x s.state s'.state stage stage' ∧ ChannelStep s s' (.Disconnect x stage) ∧
      LockStep s s' (Task.Disconnect x stage).holds (Task.Disconnect x stage').holds ∧
      s'.state.channelCount = s.state.channelCount := by
  cases stage with
  | Lookup =>
      simp only [Disconnecting.next] at h
      split at h
      next r hlookup =>
        cases h
        exact ⟨.Found hlookup (.refl _), .Same rfl, .Same rfl, rfl⟩
      next hlookup =>
        cases h
        exact ⟨.Absent hlookup (.refl _), .Same rfl, .Same rfl, rfl⟩
  | Upgrade r =>
      simp only [Disconnecting.next] at h
      split_ifs at h with hstop hgone
      · cases h
        exact ⟨.Dead hgone (.refl _), .Same rfl, .Same rfl, rfl⟩
      · cases h
        exact ⟨.Alive (.refl _), .Same rfl, .Same rfl, rfl⟩
  | Remove client =>
      simp only [Disconnecting.next] at h
      split_ifs at h with hmem
      · cases h
        cases client with
        | none => exact ⟨.Unclaimed hmem rfl, .Same rfl, .Same rfl, rfl⟩
        | some r => exact ⟨.Removed hmem rfl, .Same rfl, .Same rfl, rfl⟩
      · cases h
        exact ⟨.Gone hmem (.refl _), .Same rfl, .Same rfl, rfl⟩
  | Load r =>
      cases h
      exact ⟨.On rfl (.inl rfl) rfl (.refl _), .Same rfl, .Same rfl, rfl⟩
  | RemoveUdp r k =>
      cases h
      exact ⟨.On rfl (.inl rfl) rfl ⟨rfl, rfl, rfl, rfl, fun _ => rfl⟩, .Same rfl, .Same rfl, rfl⟩
  | Count r k =>
      cases h
      exact ⟨.Counted rfl, .Same rfl, .Same rfl, rfl⟩
  | Cancel r k =>
      cases h
      exact ⟨.On rfl (.inl rfl) rfl (.set rfl), .Same rfl, .Same rfl, rfl⟩
  | Swap r k =>
      simp only [Disconnecting.next, ServerState.call, Client.removeUdpSocket] at h
      cases hsocket : (s.state.get r).udpSocketAddr with
      | none =>
          rw [hsocket] at h
          cases h
          exact ⟨.On rfl (.inl rfl) rfl (.set rfl), .Same rfl, .Same rfl, rfl⟩
      | some addr =>
          rw [hsocket] at h
          cases h
          exact ⟨.On rfl (.inl rfl) rfl (.set rfl), .Same rfl, .Same rfl, rfl⟩
  | Free addr k =>
      cases h
      exact ⟨.On rfl (.inl rfl) rfl ⟨rfl, rfl, rfl, rfl, fun _ => rfl⟩, .Same rfl, .Same rfl, rfl⟩
  | Tell k stage =>
      obtain ⟨⟨next, told⟩, hnext, heq⟩ := Option.map_eq_some_iff.mp h
      cases heq
      obtain ⟨hsame, hchannels, hcount⟩ := Telling.next_same hnext
      cases told <;> exact ⟨.On rfl (.inl rfl) rfl hsame, .Same hchannels, .Same rfl, hcount⟩
  | Leave k stage =>
      obtain ⟨⟨next, left⟩, hnext, heq⟩ := Option.map_eq_some_iff.mp h
      cases heq
      obtain ⟨hsame, hleave, hlock, hcount⟩ := Leaving.next_spec hnext
      have hchannels : ChannelStep s next (.Disconnect x (.Leave k stage)) := by
        refine hleave.channelStep ?_ ?_
        · rintro rfl
          exact ⟨rfl, rfl⟩
        · rintro rfl
          rfl
      cases left <;> exact ⟨.On rfl (.inl rfl) rfl hsame, hchannels, hlock, hcount⟩
  | Find k =>
      simp only [Disconnecting.next] at h
      split at h
      · split_ifs at h
        cases h
        exact ⟨.On rfl (.inl rfl) rfl (.refl _), .Same rfl, .Same rfl, rfl⟩
      · cases h
        exact ⟨.On rfl (.inr rfl) rfl (.refl _), .Same rfl, .Same rfl, rfl⟩
  | Retain k =>
      cases h
      exact ⟨.On rfl (.inr rfl) rfl ⟨rfl, rfl, rfl, rfl, fun _ => rfl⟩, .Remove ⟨rfl, rfl⟩ rfl,
        .Same rfl, rfl⟩
  | Done => cases h

end Mumble
