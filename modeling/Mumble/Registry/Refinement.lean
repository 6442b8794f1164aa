import Mumble.Registry
import Mumble.Server

namespace Mumble

open Mumble.Lib

def Client.entry (c : Client) : Entry where
  sessionId := c.sessionId
  channelId := c.channelId
  mute := c.mute
  deaf := c.deaf
  cancelled := c.cancelled
  udpSocketAddr := c.udpSocketAddr

def Channel.room (c : Channel) : Room where
  temporary := c.temporary
  members := fun session => c.clients.lookup session
  listeners := fun session => c.listeners.lookup session

-- What the registry is at a state of the server.
def ServerState.registry (s : ServerState) : Registry where
  entry := fun r => (s.get r).entry
  next := s.next
  clients := fun session => s.clients.lookup session
  withoutUdp := fun session => s.clientsWithoutUdp.lookup session
  bySocket := fun addr => s.clientsBySocket.lookup addr
  channels := fun k => (s.channels.lookup k).map Channel.room
  size := s.clients.entries.length
  active := s.activeClients

namespace Lib.HashIndex

variable {κ : Type} [DecidableEq κ]

theorem lookup_erase_eq (k : κ) (m : HashIndex κ ClientRef) :
    (fun x => (m.erase k).lookup x) = Function.update (fun x => m.lookup x) k none := by
  funext x
  by_cases hx : x = k
  · subst hx
    rw [AList.lookup_erase, Function.update_self]
  · rw [AList.lookup_erase_ne hx, Function.update_of_ne hx]

theorem lookup_insertNew_eq (k : κ) (r : ClientRef) (m : HashIndex κ ClientRef) :
    (fun x => (insertNew k r m).lookup x) = Registry.keep (fun x => m.lookup x) k r := by
  funext x
  by_cases hx : x = k
  · subst hx
    rw [lookup_insertNew_self, Registry.keep, Function.update_self]
  · rw [lookup_insertNew_ne hx, Registry.keep, Function.update_of_ne hx]

end Lib.HashIndex

namespace ServerState

variable {s : ServerState} {r : ClientRef}

@[simp] theorem get_set_self (s : ServerState) (r : ClientRef) (c : Client) :
    (s.set r c).get r = c := Function.update_self ..

theorem get_set_ne {q : ClientRef} (c : Client) (h : q ≠ r) : (s.set r c).get q = s.get q :=
  Function.update_of_ne h _ _

@[simp] theorem get_modify_self (s : ServerState) (r : ClientRef) (f : Client → Client) :
    (s.modify r f).get r = f (s.get r) := get_set_self ..

theorem set_get (s : ServerState) (r : ClientRef) : s.set r (s.get r) = s := by
  unfold set get
  rw [Function.update_eq_self]

theorem get_modify_ne {q : ClientRef} (f : Client → Client) (h : q ≠ r) :
    (s.modify r f).get q = s.get q := get_set_ne _ h

-- A client is written: the registry sees what becomes of its entry.
theorem registry_set {c : Client} {f : Entry → Entry} (h : c.entry = f (s.get r).entry) :
    (s.set r c).registry = s.registry.setEntry r f := by
  have hentry : (fun q => ((s.set r c).get q).entry) =
      Function.update (fun q => (s.get q).entry) r (f (s.get r).entry) := by
    funext q
    by_cases hq : q = r
    · subst hq
      rw [get_set_self, Function.update_self, h]
    · rw [get_set_ne c hq, Function.update_of_ne hq]
  unfold registry Registry.setEntry
  rw [hentry]
  rfl

theorem registry_set_same {c : Client} (h : c.entry = (s.get r).entry) :
    (s.set r c).registry = s.registry := by
  rw [registry_set (f := id) h, Registry.setEntry]
  exact congrArg (fun entry => { s.registry with entry }) (Function.update_eq_self r _)

theorem registry_modify {f : Client → Client} {g : Entry → Entry}
    (h : ∀ c, (f c).entry = g c.entry) :
    (s.modify r f).registry = s.registry.setEntry r g := registry_set (h _)

theorem registry_modify_same {f : Client → Client} (h : ∀ c, (f c).entry = c.entry) :
    (s.modify r f).registry = s.registry := registry_set_same (h _)

-- A method that reports a result and leaves the entry alone.
theorem registry_call_same {ε : Type} {f : Client → Client × ε}
    (h : ∀ c, (f c).1.entry = c.entry) : (s.call r f).1.registry = s.registry :=
  registry_set_same (h _)

end ServerState

theorem Client.joinChannel_eq (c : Client) (k : UInt32) :
    c.joinChannel k =
      ({ c with channelId := k }, if c.channelId = k then none else some c.channelId) := by
  unfold joinChannel
  by_cases hk : k = c.channelId
  · subst hk
    simp only [if_true]
  · rw [if_neg hk, if_neg (Ne.symm hk)]

theorem Client.entry_sendMessage (c : Client) (message : ServerMessage) :
    (c.sendMessage message).1.entry = c.entry := by
  unfold sendMessage
  split <;> rfl

theorem Client.entry_trySend (c : Client) (message : ClientMessage) :
    (c.trySend message).1.entry = c.entry := by
  unfold trySend
  split_ifs <;> rfl

theorem Client.entry_sendCryptSetup (c : Client) (now : Instant) (reset : Bool) :
    (c.sendCryptSetup now reset).1.entry = c.entry := by
  rw [sendCryptSetup, entry_sendMessage]
  cases reset <;> rfl

theorem Client.entry_sendVoicePacket {c c' : Client} {packet : VoicePacket .ClientBound}
    {result : MumbleResult} (h : c.sendVoicePacket packet = .ok (c', result)) :
    c'.entry = c.entry := by
  unfold sendVoicePacket at h
  split at h
  · obtain ⟨⟨crypt, dest⟩, -, hret⟩ := Exec.bind_eq_ok.mp h
    cases hret
    rfl
  · have hsend := entry_sendMessage c (.UDPTunnel (encodeVoicePacket packet []))
    rw [Except.ok.inj h] at hsend
    exact hsend

namespace ServerState

variable {s : ServerState} {r : ClientRef}

@[simp] theorem registry_trySend (s : ServerState) (r : ClientRef) (message : ClientMessage) :
    (s.trySend r message).registry = s.registry := by
  have hcall := registry_call_same (s := s) (r := r) fun c => Client.entry_trySend c message
  unfold trySend
  generalize s.call r (fun c => c.trySend message) = called at hcall ⊢
  obtain ⟨s', accepted⟩ := called
  cases accepted with
  | true => exact hcall
  | false => exact hcall

theorem registry_foldl {α : Type} {f : ServerState → α → ServerState}
    (h : ∀ s a, (f s a).registry = s.registry) (s : ServerState) (l : List α) :
    (l.foldl f s).registry = s.registry := by
  induction l generalizing s with
  | nil => rfl
  | cons a l ih => rw [List.foldl_cons, ih, h]

@[simp] theorem registry_broadcastMessage (s : ServerState) (message : ServerMessage) :
    (s.broadcastMessage message).registry = s.registry :=
  registry_foldl (fun s r => registry_trySend s r _) s _

-- A channel is changed in place.
theorem registry_alter {f : Channel → Channel} {g : Room → Room} (hid : ∀ c, (f c).id = c.id)
    (k : UInt32) (h : ∀ c, (f c).room = g c.room) :
    { s with channels := s.channels.alter k f hid }.registry =
      s.registry.setRoom k fun room => some (g room) := by
  have hchannels : (fun k' => ((s.channels.alter k f hid).lookup k').map Channel.room) =
      Function.update (fun k' => (s.channels.lookup k').map Channel.room) k
        (((s.channels.lookup k).map Channel.room).bind fun room => some (g room)) := by
    funext k'
    by_cases hk : k' = k
    · subst hk
      rw [ChannelMap.lookup_alter_self, Function.update_self]
      cases s.channels.lookup k' with
      | none => rfl
      | some c => exact congrArg some (h c)
    · rw [ChannelMap.lookup_alter_ne hk, Function.update_of_ne hk]
  exact congrArg (fun channels => { s.registry with channels }) hchannels

theorem registry_eraseMember (s : ServerState) (k session : UInt32) :
    { s with channels := s.channels.alterClients k fun m => m.erase session }.registry =
      s.registry.setRoom k fun room =>
        some { room with members := Function.update room.members session none } :=
  registry_alter (g := fun room =>
    { room with members := Function.update room.members session none }) _ k fun c =>
      congrArg (fun members => { c.room with members }) (HashIndex.lookup_erase_eq session c.clients)

theorem registry_insertMember (s : ServerState) (r : ClientRef) (k session : UInt32) :
    { s with channels := s.channels.alterClients k (HashIndex.insertNew session r) }.registry =
      s.registry.setRoom k fun room =>
        some { room with members := Registry.keep room.members session r } :=
  registry_alter (g := fun room =>
    { room with members := Registry.keep room.members session r }) _ k fun c =>
      congrArg (fun members => { c.room with members })
        (HashIndex.lookup_insertNew_eq session r c.clients)

-- A channel is deleted and everyone is told.
theorem registry_deleteChannel (s : ServerState) (k : UInt32) :
    (s.deleteChannel k).registry = s.registry.setRoom k fun _ => none := by
  have hchannels : (fun k' => ((s.channels.erase k).lookup k').map Channel.room) =
      Function.update (fun k' => (s.channels.lookup k').map Channel.room) k
        (((s.channels.lookup k).map Channel.room).bind fun _ => none) := by
    funext k'
    by_cases hk : k' = k
    · subst hk
      rw [ChannelMap.lookup_erase_self, Function.update_self, Option.bind_fun_none,
        Option.map_none]
    · rw [ChannelMap.lookup_erase_ne hk, Function.update_of_ne hk]
  rw [deleteChannel, registry_broadcastMessage]
  exact congrArg (fun channels => { s.registry with channels }) hchannels

theorem registry_channels (s : ServerState) (k : UInt32) :
    s.registry.channels k = (s.channels.lookup k).map Channel.room := rfl

end ServerState

-- The map of a channel's members is empty as a list and as a function.
theorem Channel.clients_isEmpty_iff (m : HashIndex UInt32 ClientRef) :
    m.entries.isEmpty = true ↔ ∀ session, m.lookup session = none := by
  rw [List.isEmpty_iff, HashIndex.entries_eq_nil_iff]
  simp only [AList.lookup_eq_none]

namespace ServerState

variable {s : ServerState} {r : ClientRef} {k : UInt32}

theorem registry_handleClientLeftChannel (s : ServerState) (session k : UInt32) :
    (s.handleClientLeftChannel session k).1.registry = s.registry.leave session k := by
  unfold handleClientLeftChannel
  cases hlook : s.channels.lookup k with
  | none =>
      simp only [registry_deleteChannel, Registry.leave]
      apply Registry.setRoom_congr
      intro room hroom
      rw [registry_channels, hlook] at hroom
      cases hroom
  | some c =>
      have hroom : s.registry.channels k = some c.room := by rw [registry_channels, hlook]; rfl
      have hempty : (c.clients.erase session).entries.isEmpty = true ↔
          ∀ other, Function.update c.room.members session none other = none := by
        rw [Channel.clients_isEmpty_iff]
        have herase := HashIndex.lookup_erase_eq session c.clients
        exact forall_congr' fun other => iff_of_eq (congrArg (· = none) (congrFun herase other))
      -- the source asks whether the channel is kept, the registry whether it goes
      by_cases hgone : c.temporary = true ∧ ∀ other,
          Function.update c.room.members session none other = none
      · have hkept : (!c.temporary || !(c.clients.erase session).entries.isEmpty) = false := by
          rw [hgone.1, hempty.mpr hgone.2]
          rfl
        simp only [hkept, Bool.false_eq_true, if_false, registry_deleteChannel,
          registry_eraseMember, Registry.setRoom_setRoom, Registry.leave]
        apply Registry.setRoom_congr
        intro room hroom'
        rw [hroom] at hroom'
        cases hroom'
        exact (if_pos hgone).symm
      · have hkept : (!c.temporary || !(c.clients.erase session).entries.isEmpty) = true := by
          by_contra hnot
          simp only [Bool.not_eq_true, Bool.or_eq_false_iff, Bool.not_eq_false'] at hnot
          exact hgone ⟨hnot.1, hempty.mp hnot.2⟩
        simp only [hkept, if_true, registry_eraseMember, Registry.leave]
        apply Registry.setRoom_congr
        intro room hroom'
        rw [hroom] at hroom'
        cases hroom'
        exact (if_neg hgone).symm

theorem registry_channels_eq_none : s.registry.channels k = none ↔ s.channels.lookup k = none :=
  Option.map_eq_none_iff

theorem getChannelByChannelId_eq (s : ServerState) (k : UInt32) :
    s.getChannelByChannelId k = s.channels.lookup k := s.channels.find_id k

def recordChannel (s : ServerState) (r : ClientRef) (k : UInt32) : ServerState :=
  s.modify r fun c => { c with channelId := k }

theorem call_joinChannel (s : ServerState) (r : ClientRef) (k : UInt32) :
    (s.call r fun c => c.joinChannel k) = (s.recordChannel r k,
      if (s.get r).channelId = k then none else some (s.get r).channelId) := by
  simp only [call, recordChannel, modify, Client.joinChannel_eq]

-- The client is recorded in the channel and put among its members.
def enterChannel (s : ServerState) (r : ClientRef) (k : UInt32) : ServerState :=
  { s.recordChannel r k with
    channels := s.channels.alterClients k (HashIndex.insertNew (s.get r).sessionId r) }

-- A join fails when the channel is not there; the client is recorded in it all
-- the same.
theorem setClientChannel_none (r : ClientRef) (h : s.channels.lookup k = none) :
    s.setClientChannel r k = (s.recordChannel r k, .error .ChannelDoesntExist) := by
  have hlook : (s.recordChannel r k).getChannelByChannelId k = none := by
    rw [getChannelByChannelId_eq]
    exact h
  unfold setClientChannel
  simp only [call_joinChannel, hlook]

def announceJoin (s : ServerState) (r : ClientRef) (k : UInt32) : ServerState :=
  (s.enterChannel r k).broadcastMessage (.UserState ((s.enterChannel r k).get r).getUserState)

theorem setClientChannel_some (r : ClientRef) (h : s.channels.lookup k ≠ none) :
    s.setClientChannel r k =
      (if (s.get r).channelId = k then s.announceJoin r k
        else ((s.announceJoin r k).handleClientLeftChannel (s.get r).sessionId
          (s.get r).channelId).1, .ok ()) := by
  obtain ⟨c, hc⟩ := Option.ne_none_iff_exists'.mp h
  have hlook : (s.recordChannel r k).getChannelByChannelId k = some c := by
    rw [getChannelByChannelId_eq]
    exact hc
  have hsession : ((s.recordChannel r k).get r).sessionId = (s.get r).sessionId := by
    rw [recordChannel, get_modify_self]
  unfold setClientChannel
  simp only [call_joinChannel, hlook, ChannelMap.id_of_lookup hc, hsession]
  by_cases hk : (s.get r).channelId = k
  · simp only [hk, if_true]
    rfl
  · simp only [hk, if_false]
    rfl

theorem registry_recordChannel (s : ServerState) (r : ClientRef) (k : UInt32) :
    (s.recordChannel r k).registry = s.registry.setEntry r fun e => { e with channelId := k } :=
  registry_modify fun _ => rfl

theorem registry_announceJoin (s : ServerState) (r : ClientRef) (k : UInt32) :
    (s.announceJoin r k).registry =
      (s.registry.setEntry r fun e => { e with channelId := k }).enter r k := by
  have hsession : ((s.recordChannel r k).registry.entry r).sessionId = (s.get r).sessionId := by
    rw [registry_recordChannel, Registry.setEntry_entry_self]
    rfl
  rw [announceJoin, registry_broadcastMessage, ← registry_recordChannel, Registry.enter, hsession]
  exact registry_insertMember (s.recordChannel r k) r k (s.get r).sessionId

theorem registry_setClientChannel_some (r : ClientRef) (h : s.channels.lookup k ≠ none) :
    (s.setClientChannel r k).1.registry = s.registry.join r k := by
  rw [setClientChannel_some r h, Registry.join, ← registry_announceJoin]
  by_cases hk : (s.get r).channelId = k
  · have hk' : (s.registry.entry r).channelId = k := hk
    rw [if_pos hk, if_pos hk']
  · have hk' : (s.registry.entry r).channelId ≠ k := hk
    rw [if_neg hk, if_neg hk', registry_handleClientLeftChannel]
    rfl

theorem registry_releaseSocket (s : ServerState) (addr : Option SocketAddr) :
    (s.releaseSocket addr).registry = s.registry.release addr := by
  have hbySocket : (s.releaseSocket addr).registry.bySocket = (s.registry.release addr).bySocket := by
    funext a
    cases addr with
    | none => rfl
    | some addr =>
        by_cases ha : a = addr
        · subst ha
          exact (AList.lookup_erase ..).trans (if_pos rfl).symm
        · exact (AList.lookup_erase_ne ha).trans (if_neg (by simpa using ha)).symm
  have hrest : (s.releaseSocket addr).registry =
      { s.registry with bySocket := (s.releaseSocket addr).registry.bySocket } := by
    cases addr <;> rfl
  rw [hrest, hbySocket]
  rfl

theorem registry_call_removeUdpSocket (s : ServerState) (r : ClientRef) :
    (s.call r Client.removeUdpSocket).1.registry =
      s.registry.setEntry r fun e => { e with udpSocketAddr := none } :=
  registry_set rfl

theorem registry_detachClient {session : UInt32} (h : s.clients.lookup session = some r) :
    (s.detachClient r session).registry =
      { (s.registry.setEntry r fun e =>
          { e with cancelled := true, udpSocketAddr := none }).release
            (s.get r).udpSocketAddr with
        clients := Function.update s.registry.clients session none
        withoutUdp := Function.update s.registry.withoutUdp session none
        size := s.registry.size - 1
        active := s.registry.active - 1 } := by
  have herased : { s with
      clients := s.clients.erase session
      clientsWithoutUdp := s.clientsWithoutUdp.erase session
      activeClients := s.activeClients - 1 }.registry =
      { s.registry with
        clients := Function.update s.registry.clients session none
        withoutUdp := Function.update s.registry.withoutUdp session none
        size := s.registry.size - 1
        active := s.registry.active - 1 } := by
    have hclients := HashIndex.lookup_erase_eq session s.clients
    have hwithoutUdp := HashIndex.lookup_erase_eq session s.clientsWithoutUdp
    have hsize := HashIndex.length_erase (HashIndex.mem_iff_lookup.mpr ⟨r, h⟩)
    simp only [registry, hclients, hwithoutUdp, hsize]
    rfl
  have hsocket : ∀ s : ServerState, (s.call r Client.removeUdpSocket).2 =
      (s.get r).udpSocketAddr := fun _ => rfl
  unfold detachClient
  simp only [registry_releaseSocket, registry_call_removeUdpSocket, hsocket, get_modify_self]
  rw [registry_modify (g := fun e => { e with cancelled := true }) fun _ => rfl, herased,
    Registry.setEntry_setEntry]
  rfl

end ServerState

-- Once a session has left a channel, taking it out again changes nothing.
theorem Registry.leave_erase (g : Registry) (session k : UInt32) :
    ((g.leave session k).setRoom k fun room =>
      some { room with members := Function.update room.members session none }) =
      g.leave session k := by
  simp only [leave, setRoom_setRoom]
  apply setRoom_congr
  intro room _
  split_ifs
  · rfl
  · rw [Option.bind_some, Function.update_idem]

namespace ServerState

variable {s : ServerState} {r : ClientRef} {k : UInt32}

theorem registry_broadcastClientDelete (s : ServerState) (session k : UInt32) :
    (s.broadcastClientDelete session k).registry = s.registry.leave session k := by
  rw [broadcastClientDelete, registry_handleClientLeftChannel, registry_broadcastMessage]

theorem registry_disconnect (s : ServerState) (session : UInt32) :
    (s.disconnect session).registry = s.registry.drop session := by
  unfold disconnect Registry.drop
  cases hlook : s.clients.lookup session with
  | none =>
      have hnone : s.registry.clients session = none := hlook
      simp only [hnone]
  | some r =>
      have hsome : s.registry.clients session = some r := hlook
      have hleft := registry_broadcastClientDelete (s.detachClient r session) session
        (s.get r).channelId
      rw [registry_detachClient hlook] at hleft
      simp only [hsome]
      cases hchannel : ((s.detachClient r session).broadcastClientDelete session
          (s.get r).channelId).getChannelByChannelId (s.get r).channelId with
      | none => exact hleft
      | some c =>
          rw [getChannelByChannelId_eq] at hchannel
          simp only [ChannelMap.id_of_lookup hchannel, registry_eraseMember, hleft]
          exact Registry.leave_erase _ _ _

end ServerState

theorem add_ofNat_succ (count : UInt32) (n : Nat) :
    count + UInt32.ofNat (n + 1) = count + 1 + UInt32.ofNat n := by
  rw [UInt32.ofNat_add, UInt32.add_assoc, UInt32.add_comm (UInt32.ofNat n)]
  rfl

section FreeId

variable {used : UInt32 → Bool} {fuel : Nat} {count : UInt32}

theorem freeId_of_unused (hfuel : 0 < fuel) (h : used count = false) :
    freeId used fuel count = (count, count + 1) := by
  obtain ⟨fuel, rfl⟩ := Nat.exists_eq_succ_of_ne_zero hfuel.ne'
  rw [freeId, h]
  rfl

-- What is left to search once the first id is found in use.
theorem exists_unused_succ (hused : used count = true)
    (h : ∃ i < fuel + 1, used (count + UInt32.ofNat i) = false) :
    ∃ i < fuel, used (count + 1 + UInt32.ofNat i) = false := by
  obtain ⟨i, hi, hfree⟩ := h
  cases i with
  | zero =>
      have hzero : count + UInt32.ofNat 0 = count := UInt32.add_zero count
      rw [hzero, hused] at hfree
      cases hfree
  | succ i =>
      rw [add_ofNat_succ] at hfree
      exact ⟨i, Nat.lt_of_succ_lt_succ hi, hfree⟩

-- The search for an id ends at a free one if there is one in reach.
theorem freeId_unused (h : ∃ i < fuel, used (count + UInt32.ofNat i) = false) :
    used (freeId used fuel count).1 = false := by
  induction fuel generalizing count with
  | zero =>
      obtain ⟨i, hi, -⟩ := h
      omega
  | succ fuel ih =>
      by_cases hused : used count = true
      · rw [freeId, if_pos hused]
        exact ih (exists_unused_succ hused h)
      · have hfree := Bool.eq_false_iff.mpr hused
        rw [freeId_of_unused (Nat.succ_pos fuel) hfree]
        exact hfree

end FreeId

-- A counter of 32 bits comes round only after all its values.
theorem nodup_counter (count : UInt32) {n : Nat} (hn : n ≤ 2 ^ 32) :
    ((List.range n).map fun i => count + UInt32.ofNat i).Nodup := by
  refine List.Nodup.map_on ?_ List.nodup_range
  intro i hi j hj hij
  have hsame := congrArg UInt32.toNat hij
  have hi' := List.mem_range.mp hi
  have hj' := List.mem_range.mp hj
  simp only [UInt32.toNat_add, UInt32.toNat_ofNat'] at hsame
  omega

-- More consecutive ids than there are keys cannot all be keys.
theorem Lib.HashIndex.exists_unused {α : Type} (m : HashIndex UInt32 α) (count : UInt32)
    (hlen : m.entries.length < 2 ^ 32) :
    ∃ i < m.entries.length + 1, count + UInt32.ofNat i ∉ m := by
  by_contra! hall
  have hnodup := nodup_counter count (Nat.succ_le_of_lt hlen)
  have hsubset : ((List.range (m.entries.length + 1)).map fun i =>
      count + UInt32.ofNat i) ⊆ m.keys := by
    intro id hid
    obtain ⟨i, hi, rfl⟩ := List.mem_map.mp hid
    exact hall i (List.mem_range.mp hi)
  have hle := (List.subperm_of_subset hnodup hsubset).length_le
  simp only [List.length_map, List.length_range, AList.keys, List.keys] at hle
  omega

namespace ServerState

variable {s : ServerState} {r : ClientRef} {k : UInt32}

theorem getFreeSessionId_notMem (h : s.clients.entries.length < 2 ^ 32) :
    s.getFreeSessionId.2 ∉ s.clients := by
  obtain ⟨i, hi, hfree⟩ := HashIndex.exists_unused s.clients s.sessionCount h
  have hreach : ∃ i < 2 ^ 32, decide (s.sessionCount + UInt32.ofNat i ∈ s.clients) = false :=
    ⟨i, by omega, decide_eq_false hfree⟩
  exact of_decide_eq_false (@freeId_unused (fun id => decide (id ∈ s.clients)) _ _ hreach)

theorem registry_addClient (username : String) (crypt : CryptState) (write : Writer)
    (peerIp : String) (now : Instant) (hfresh : s.getFreeSessionId.2 ∉ s.clients) :
    (s.addClient username crypt write peerIp now).1.registry =
      s.registry.add s.getFreeSessionId.2 := by
  have hclients := HashIndex.lookup_insertNew_eq s.getFreeSessionId.2 s.next s.clients
  have hwithoutUdp := HashIndex.lookup_insertNew_eq s.getFreeSessionId.2 s.next s.clientsWithoutUdp
  have hsize := HashIndex.length_insertNew (v := s.next) hfresh
  have hset := registry_set (s := s.getFreeSessionId.1) (r := s.next)
    (c := .new username s.getFreeSessionId.2 0 crypt peerIp write now)
    (f := fun _ => ⟨s.getFreeSessionId.2, 0, false, false, false, none⟩) rfl
  have hentry := congrArg Registry.entry hset
  unfold addClient Registry.add
  simp only [registry]
  congr 1

end ServerState

end Mumble
