import Mumble.Tasks.Steps
import Mumble.Registry.Refinement

/-!
A task that nobody interrupts does what the operation of `State` does.
-/

namespace Mumble

open Mumble.Lib

namespace Shared

variable {s : Shared} {k : UInt32}

theorem release_hold (h : s.held k = false) : (s.hold k).release k = s := by
  obtain ⟨state, held⟩ := s
  simp only [hold, release, Function.update_idem]
  rw [← h, Function.update_eq_self]

theorem release_update_hold (h : s.held k = false) (state : ServerState) :
    ((s.hold k).update state).release k = s.update state :=
  congrArg (fun s => s.update state) (release_hold h)

end Shared

-- A broadcast or a leaving that is over has no next step.

def Telling.nextOf (message : ServerMessage) (s : ServerState) (choice : Choice) :
    Option Telling → Option (ServerState × Option Telling)
  | some stage => stage.next message s choice
  | none => none

def Leaving.nextOf (clientSession leaveChannelId : UInt32) (s : Shared) (choice : Choice) :
    Option Leaving → Option (Shared × Option Leaving)
  | some stage => stage.next clientSession leaveChannelId s choice
  | none => none

theorem clients_trySend (s : ServerState) (r : ClientRef) (message : ClientMessage) :
    (s.trySend r message).clients = s.clients := by
  simp only [ServerState.trySend]
  split_ifs <;> rfl

theorem tell_one {message : ServerMessage} {s : ServerState} {r : ClientRef}
    (hr : r ∈ s.clients.values) :
    Alone (Telling.nextOf message) (s, some .Walk)
      (s.trySend r (.SendMessage message), some .Walk) := by
  refine .step (.Visit r) (if_pos hr) ?_
  cases haccepted : (s.call r fun c => c.trySend (.SendMessage message)).2 with
  | true =>
      refine .step .Go ?_ (.refl _)
      simp only [Telling.nextOf, Telling.next, haccepted, ServerState.trySend, if_true]
  | false =>
      let full := (s.call r fun c => c.trySend (.SendMessage message)).1
      have hsend : Telling.nextOf message s .Go (some (.Send r)) =
          some (full, some (.Queue (full.get r).sessionId)) := by
        simp only [Telling.nextOf, Telling.next, haccepted, Bool.false_eq_true, if_false, full]
      refine .step .Go hsend (.step .Go ?_ (.refl _))
      simp only [Telling.nextOf, Telling.next, haccepted, ServerState.trySend, Bool.false_eq_true,
        if_false, full]

theorem tell_all {message : ServerMessage} {s : ServerState} {refs : List ClientRef}
    (hrefs : ∀ r ∈ refs, r ∈ s.clients.values) :
    Alone (Telling.nextOf message) (s, some .Walk)
      (refs.foldl (fun s r => s.trySend r (.SendMessage message)) s, some .Walk) := by
  induction refs generalizing s with
  | nil => exact .refl _
  | cons r refs ih =>
      refine (tell_one (hrefs r (by simp))).trans (ih fun r' hr' => ?_)
      rw [clients_trySend]
      exact hrefs r' (List.mem_cons_of_mem _ hr')

theorem alone_broadcastMessage (message : ServerMessage) (s : ServerState) :
    Alone (Telling.nextOf message) (s, some .Walk) (s.broadcastMessage message, none) :=
  (tell_all fun _ hr => hr).trans (.step .Stop rfl (.refl _))

theorem alone_deleteChannel {s : Shared} {k : UInt32} (clientSession : UInt32)
    (hfree : s.held k = false) :
    Alone (Leaving.nextOf clientSession k) (s, some .Delete)
      (s.update (s.state.deleteChannel k), none) := by
  have hdelete : Leaving.nextOf clientSession k s .Go (some .Delete) =
      some (s.update { s.state with channels := s.state.channels.erase k },
        some (.Tell .Walk)) := by
    simp [Leaving.nextOf, Leaving.next, hfree]
  refine .step .Go hdelete ?_
  refine (alone_broadcastMessage (.ChannelRemove k) _).within (I := fun _ => True)
    (fun x => (s.update x.1, x.2.map Leaving.Tell)) ?_ trivial
  rintro ⟨state, stage⟩ choice ⟨state', stage'⟩ - h
  cases stage with
  | none => cases h
  | some stage =>
      simp only [Telling.nextOf] at h
      simp only [Leaving.nextOf, Leaving.next, Option.map_some, Shared.update, h, and_self]

theorem alone_handleClientLeftChannel {s : Shared} {k : UInt32} (clientSession : UInt32)
    (hfree : s.held k = false) :
    Alone (Leaving.nextOf clientSession k) (s, some .Enter)
      (s.update (s.state.handleClientLeftChannel clientSession k).1, none) := by
  unfold ServerState.handleClientLeftChannel
  cases hlookup : s.state.channels.lookup k with
  | none =>
      refine .step .Go ?_ (alone_deleteChannel clientSession hfree)
      simp [Leaving.nextOf, Leaving.next, hlookup]
  | some c =>
      have henter : Leaving.nextOf clientSession k s .Go (some .Enter) =
          some (s.hold k, some .Remove) := by
        simp [Leaving.nextOf, Leaving.next, hlookup, hfree]
      refine .step .Go henter (.step .Go rfl ?_)
      have hrelease := Shared.release_update_hold hfree { s.state with
        channels := s.state.channels.alterClients k fun m => m.erase clientSession }
      have hfound : (s.state.channels.alterClients k fun m => m.erase clientSession).lookup k =
          some { c with clients := c.clients.erase clientSession } := by
        rw [ChannelMap.alterClients, ChannelMap.lookup_alter_self, hlookup]
        rfl
      by_cases hkeep : (!c.temporary || !(c.clients.erase clientSession).entries.isEmpty) = true
      · simp only [hkeep, if_true]
        refine .step .Go ?_ (.refl _)
        simp only [Leaving.nextOf, Leaving.next, Shared.update, Shared.hold, hfound, hkeep, if_true]
        exact congrArg (fun s => some (s, none)) hrelease
      · simp only [hkeep]
        refine .step .Go ?_ (alone_deleteChannel (s := s.update { s.state with
          channels := s.state.channels.alterClients k fun m => m.erase clientSession })
          clientSession hfree)
        simp only [Leaving.nextOf, Leaving.next, Shared.update, Shared.hold, hfound, hkeep]
        exact congrArg (fun s => some (s, some Leaving.Delete)) hrelease

theorem sessionId_broadcastMessage (s : ServerState) (message : ServerMessage) (r : ClientRef) :
    ((s.broadcastMessage message).get r).sessionId = (s.get r).sessionId :=
  congrArg (fun g : Registry => (g.entry r).sessionId)
    (ServerState.registry_broadcastMessage s message)

-- The way out of the old channel, as part of a move.
theorem alone_leave {s : Shared} {r : ClientRef} {k leaveChannelId clientSession : UInt32}
    (hsession : (s.state.get r).sessionId = clientSession) (hfree : s.held leaveChannelId = false) :
    Alone (Joining.next r k) (s, .Leave leaveChannelId .Enter)
      (s.update (s.state.handleClientLeftChannel clientSession leaveChannelId).1,
        .Done (.ok ())) := by
  refine (alone_handleClientLeftChannel clientSession hfree).within
    (I := fun x => (x.1.state.get r).sessionId = clientSession)
    (fun x => (x.1, match x.2 with
      | some stage => Joining.Leave leaveChannelId stage
      | none => .Done (.ok ()))) ?_ hsession
  rintro ⟨state, stage⟩ choice ⟨state', stage'⟩ hsession h
  cases stage with
  | none => cases h
  | some stage =>
      simp only [Leaving.nextOf] at h
      refine ⟨((Leaving.next_spec h).1.sessionId r).trans hsession, ?_⟩
      cases stage' <;> simp only [Joining.next, hsession, h, Option.map_some]

-- The broadcast in a move.
theorem alone_tell {s : Shared} {r : ClientRef} {k : UInt32} (leave : Option UInt32)
    (userState : UserState) :
    Alone (Joining.next r k) (s, .Tell leave userState .Walk)
      (s.update (s.state.broadcastMessage (.UserState userState)), Joining.afterTell k leave) := by
  refine (alone_broadcastMessage (.UserState userState) s.state).within (I := fun _ => True)
    (fun x => (s.update x.1, match x.2 with
      | some stage => Joining.Tell leave userState stage
      | none => Joining.afterTell k leave)) ?_ trivial
  rintro ⟨state, stage⟩ choice ⟨state', stage'⟩ - h
  cases stage with
  | none => cases h
  | some stage =>
      simp only [Telling.nextOf] at h
      refine ⟨trivial, ?_⟩
      cases stage' <;> simp only [Joining.next, Shared.update, h, Option.map_some]

-- A move of a client.
theorem alone_joining {s : Shared} (r : ClientRef) (k : UInt32) (hfree : ∀ k, s.held k = false) :
    Alone (Joining.next r k) (s, .Load)
      (s.update (s.state.setClientChannel r k).1, .Done (s.state.setClientChannel r k).2) := by
  obtain ⟨joined, leave, hjoin, hload⟩ : ∃ joined leave,
      s.state.call r (fun c => c.joinChannel k) = (joined, leave) ∧
      Alone (Joining.next r k) (s, .Load) (s.update joined, .Find leave) := by
    by_cases hsame : k = (s.state.get r).channelId
    · refine ⟨s.state, none, ?_, .step .Go ?_ (.refl _)⟩
      · simp [ServerState.call, Client.joinChannel, hsame, ServerState.set, ServerState.get]
      · simp only [Joining.next, hsame, if_true]
        rfl
    · have hload : Joining.next r k s .Go .Load = some (s, .Store (s.state.get r).channelId) := by
        simp only [Joining.next, hsame, if_false]
      refine ⟨s.state.modify r fun c => { c with channelId := k }, some (s.state.get r).channelId,
        ?_, .step .Go hload (.step .Go rfl (.refl _))⟩
      simp only [ServerState.call, Client.joinChannel, hsame, if_false]
      rfl
  refine hload.trans ?_
  unfold ServerState.setClientChannel
  simp only [hjoin, ServerState.getChannelByChannelId, ChannelMap.find_id]
  cases hlookup : joined.channels.lookup k with
  | none =>
      refine .step .Go ?_ (.refl _)
      simp only [Joining.next, Shared.update, hlookup]
  | some c =>
      have hfind : Joining.next r k (s.update joined) .Go (.Find leave) =
          some ((s.update joined).hold k, .Insert leave) := by
        simp only [Joining.next, Shared.update, hlookup, hfree k, Bool.false_eq_true, if_false]
      have hinsert := Shared.release_update_hold (s := s.update joined) (hfree k) { joined with
        channels := joined.channels.alterClients k (HashIndex.insertNew (joined.get r).sessionId r) }
      refine .step .Go hfind (.step .Go (congrArg (fun s => some (s, _)) hinsert) ?_)
      refine .step .Go rfl ((alone_tell leave _).trans ?_)
      have hid : c.id = k := ChannelMap.id_of_lookup hlookup
      simp only [hid]
      cases leave with
      | none => exact .refl _
      | some leaveChannelId =>
          by_cases hsame : leaveChannelId = k
          · simp only [Joining.afterTell, hsame, if_true]
            exact .refl _
          · simp only [Joining.afterTell, hsame, if_false]
            exact alone_leave (sessionId_broadcastMessage _ _ r) (hfree leaveChannelId)

theorem alone_setClientChannel {s : Shared} (r : ClientRef) (k : UInt32)
    (hfree : ∀ k, s.held k = false) :
    Alone Task.next (s, .Client r k .Load)
      (s.update (s.state.setClientChannel r k).1,
        .Client r k (.Done (s.state.setClientChannel r k).2)) := by
  refine (alone_joining r k hfree).within (I := fun _ => True)
    (fun x => (x.1, Task.Client r k x.2)) ?_ trivial
  rintro ⟨state, stage⟩ choice ⟨state', stage'⟩ - h
  refine ⟨trivial, ?_⟩
  cases stage with
  | Done result => cases h
  | _ =>
      simp only [Task.next]
      rw [h]
      rfl

-- The same parts in a disconnect.

theorem alone_tellRemoved {s : Shared} {x k : UInt32} :
    Alone Task.next (s, .Disconnect x (.Tell k .Walk))
      (s.update (s.state.broadcastMessage (.UserRemove ⟨x, some "Disconnected"⟩)),
        .Disconnect x (.Leave k .Enter)) := by
  refine (alone_broadcastMessage (.UserRemove ⟨x, some "Disconnected"⟩) s.state).within
    (I := fun _ => True) (fun x' => (s.update x'.1, Task.Disconnect x (match x'.2 with
      | some stage => .Tell k stage
      | none => .Leave k .Enter))) ?_ trivial
  rintro ⟨state, stage⟩ choice ⟨state', stage'⟩ - h
  cases stage with
  | none => cases h
  | some stage =>
      simp only [Telling.nextOf] at h
      refine ⟨trivial, ?_⟩
      cases stage' <;> simp only [Task.next, Disconnecting.next, Shared.update, h, Option.map_some]

theorem alone_leaveRemoved {s : Shared} {x k : UInt32} (hfree : s.held k = false) :
    Alone Task.next (s, .Disconnect x (.Leave k .Enter))
      (s.update (s.state.handleClientLeftChannel x k).1, .Disconnect x (.Find k)) := by
  refine (alone_handleClientLeftChannel x hfree).within (I := fun _ => True)
    (fun x' => (x'.1, Task.Disconnect x (match x'.2 with
      | some stage => .Leave k stage
      | none => .Find k))) ?_ trivial
  rintro ⟨state, stage⟩ choice ⟨state', stage'⟩ - h
  cases stage with
  | none => cases h
  | some stage =>
      simp only [Leaving.nextOf] at h
      refine ⟨trivial, ?_⟩
      cases stage' <;> simp only [Task.next, Disconnecting.next, h, Option.map_some]

theorem alone_retain {s : Shared} {x k : UInt32} (hfree : s.held k = false) :
    Alone Task.next (s, .Disconnect x (.Find k))
      (s.update (match s.state.getChannelByChannelId k with
        | some c => { s.state with
            channels := s.state.channels.alterClients c.id fun m => m.erase x }
        | none => s.state), .Disconnect x .Done) := by
  rw [ServerState.getChannelByChannelId, ChannelMap.find_id]
  cases hlookup : s.state.channels.lookup k with
  | none =>
      refine .step .Go ?_ (.refl _)
      simp only [Task.next, Disconnecting.next, hlookup, Option.map_some]
      rfl
  | some c =>
      have hfind : Task.next s .Go (.Disconnect x (.Find k)) =
          some (s, .Disconnect x (.Retain k)) := by
        simp only [Task.next, Disconnecting.next, hlookup, hfree, Bool.false_eq_true, if_false,
          Option.map_some]
      simp only [ChannelMap.id_of_lookup hlookup]
      exact .step .Go hfind (.step .Go rfl (.refl _))

theorem alone_swap {s : Shared} {x k : UInt32} {r : ClientRef} :
    Alone Task.next (s, .Disconnect x (.Swap r k))
      (s.update ((s.state.call r Client.removeUdpSocket).1.releaseSocket
          (s.state.call r Client.removeUdpSocket).2), .Disconnect x (.Tell k .Walk)) := by
  cases hsocket : (s.state.call r Client.removeUdpSocket).2 with
  | none =>
      have hswap : Task.next s .Go (.Disconnect x (.Swap r k)) =
          some (s.update (s.state.call r Client.removeUdpSocket).1,
            .Disconnect x (.Tell k .Walk)) := by
        simp only [Task.next, Disconnecting.next, hsocket, Option.map_some]
      exact .step .Go hswap (.refl _)
  | some addr =>
      have hswap : Task.next s .Go (.Disconnect x (.Swap r k)) =
          some (s.update (s.state.call r Client.removeUdpSocket).1,
            .Disconnect x (.Free addr k)) := by
        simp only [Task.next, Disconnecting.next, hsocket, Option.map_some]
      exact .step .Go hswap (.step .Go rfl (.refl _))

theorem alone_detachClient {s : Shared} {x : UInt32} (r : ClientRef)
    (hx : x ∈ s.state.clients) :
    Alone Task.next (s, .Disconnect x (.Remove (some r)))
      (s.update (s.state.detachClient r x),
        .Disconnect x (.Tell (s.state.get r).channelId .Walk)) := by
  have hremove : Task.next s .Go (.Disconnect x (.Remove (some r))) =
      some (s.update { s.state with clients := s.state.clients.erase x },
        .Disconnect x (.Load r)) := by
    simp only [Task.next, Disconnecting.next, hx, if_true, Option.map_some]
  refine .step .Go hremove (.step .Go rfl (.step .Go rfl (.step .Go rfl (.step .Go rfl ?_))))
  exact alone_swap

theorem alone_disconnect {s : Shared} (x : UInt32) (hfree : ∀ k, s.held k = false) :
    Alone Task.next (s, .Disconnect x .Lookup)
      (s.update (s.state.disconnect x), .Disconnect x .Done) := by
  unfold ServerState.disconnect
  cases hlookup : s.state.clients.lookup x with
  | none =>
      have hmem : x ∉ s.state.clients := AList.lookup_eq_none.mp hlookup
      have hfind : Task.next s .Go (.Disconnect x .Lookup) =
          some (s, .Disconnect x (.Remove none)) := by
        simp only [Task.next, Disconnecting.next, hlookup, Option.map_some]
      refine .step .Go hfind (.step .Go ?_ (.refl _))
      simp only [Task.next, Disconnecting.next, hmem, if_false, Option.map_some]
      rfl
  | some r =>
      have hmem : x ∈ s.state.clients := HashIndex.mem_iff_lookup.mpr ⟨r, hlookup⟩
      have hfind : Task.next s .Go (.Disconnect x .Lookup) =
          some (s, .Disconnect x (.Upgrade r)) := by
        simp only [Task.next, Disconnecting.next, hlookup, Option.map_some]
      refine .step .Go hfind (.step .Go rfl ((alone_detachClient r hmem).trans ?_))
      refine alone_tellRemoved.trans ((alone_leaveRemoved ?_).trans (alone_retain ?_))
      · exact hfree _
      · exact hfree _

-- A loop that takes ids from a counter comes out at the id that the operation finds.
theorem alone_freeId {σ τ : Type} (next : σ → Choice → τ → Option (σ × τ)) (used : UInt32 → Bool)
    (counted : UInt32 → σ) (fetch : τ) (check found : UInt32 → τ)
    (hfetch : ∀ id, next (counted id) .Go fetch = some (counted (id + 1), check id))
    (hcheck : ∀ id, next (counted (id + 1)) .Go (check id) =
      some (counted (id + 1), if used id then fetch else found id))
    (fuel : Nat) {count : UInt32} (hfree : ∃ i < fuel, used (count + UInt32.ofNat i) = false) :
    Alone next (counted count, fetch)
      (counted (freeId used fuel count).2, found (freeId used fuel count).1) := by
  induction fuel generalizing count with
  | zero =>
      obtain ⟨i, hi, -⟩ := hfree
      omega
  | succ fuel ih =>
      refine .step .Go (hfetch count) (.step .Go (hcheck count) ?_)
      cases hused : used count with
      | true =>
          simp only [freeId, hused, if_true]
          exact ih (exists_unused_succ hused hfree)
      | false =>
          rw [freeId_of_unused (Nat.succ_pos fuel) hused]
          exact .refl _

-- `add_client`.
theorem alone_addClient {s : Shared} (newcomer : Newcomer)
    (hroom : s.state.clients.entries.length < 2 ^ 32) :
    Alone Task.next (s, .Connect newcomer .Fetch)
      (s.update (s.state.addClient newcomer.username newcomer.crypt newcomer.write newcomer.peerIp
          newcomer.now).1,
        .Connect newcomer (.Done s.state.next s.state.getFreeSessionId.2)) := by
  obtain ⟨i, hi, hfree⟩ := HashIndex.exists_unused s.state.clients s.state.sessionCount hroom
  have hcheck (id : UInt32) :
      Task.next (s.update { s.state with sessionCount := id + 1 }) .Go
          (.Connect newcomer (.Check id)) =
        some (s.update { s.state with sessionCount := id + 1 },
          if decide (id ∈ s.state.clients) then .Connect newcomer .Fetch
          else .Connect newcomer (.New id)) := by
    by_cases hused : id ∈ s.state.clients <;>
      simp [Task.next, Connecting.next, Shared.update, hused]
  have hfetch := alone_freeId Task.next (fun id => decide (id ∈ s.state.clients))
    (fun count => s.update { s.state with sessionCount := count }) (.Connect newcomer .Fetch)
    (fun id => .Connect newcomer (.Check id)) (fun id => .Connect newcomer (.New id))
    (fun _ => rfl) hcheck (2 ^ 32)
    ⟨i, by omega, decide_eq_false hfree⟩
  refine hfetch.trans (.step .Go rfl (.step .Go rfl (.step .Go rfl (.step .Go rfl ?_))))
  exact .refl _

end Mumble
