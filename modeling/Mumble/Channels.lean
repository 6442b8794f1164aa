import Mumble.Reachable

namespace Mumble.ServerState

open Mumble.Lib

variable {s : ServerState} {r : ClientRef} {k session : UInt32} {labels : List Label}

-- A join that fails leaves the client and the channels as they were only if the
-- client was already recorded in the channel that is not there.
theorem failed_join_atomic_iff (s : ServerState) (r : ClientRef) (k : UInt32) :
    ((s.setClientChannel r k).2 = .error .ChannelDoesntExist →
      ((s.setClientChannel r k).1.get r).channelId = (s.get r).channelId ∧
        (s.setClientChannel r k).1.channels = s.channels) ↔
      s.channels.lookup k ≠ none ∨ (s.get r).channelId = k := by
  by_cases hlook : s.channels.lookup k = none
  · have hchannel : ((s.recordChannel r k).get r).channelId = k := by
      rw [recordChannel, get_modify_self]
    rw [setClientChannel_none r hlook]
    constructor
    · intro h
      exact .inr ((h rfl).1.symm.trans hchannel)
    · rintro (hexists | hsame) -
      · exact absurd hlook hexists
      · exact ⟨hchannel.trans hsame.symm, rfl⟩
  · rw [setClientChannel_some r hlook]
    refine iff_of_true (fun h => ?_) (.inl hlook)
    cases h

-- A client in the root channel asks for a channel that is not there. From then on
-- it is recorded in that one, and when it is gone the root channel still has it.
theorem failed_join_leaves_member :
    let before := sampleServer.afterAll (sampleClients ++
      [(0, .Tcp 1 (.UserState { sampleUserState 2 with channelId := some 0 }))])
    let failed := (before.setClientChannel 1 99).1
    before.Reachable ∧
      (before.setClientChannel 1 99).2 = .error .ChannelDoesntExist ∧
      (before.get 1).channelId = 0 ∧ (failed.get 1).channelId = 99 ∧
      ((failed.disconnect 2).channels.lookup 0).any (fun c => c.clients.keys.contains 2) = true ∧
      (failed.disconnect 2).clients.keys.contains 2 = false := by
  refine ⟨reachable_sample _, ?_⟩
  decide +kernel

-- In every run in which no join fails and nobody joins who was disconnected before, the
-- clients and the channels agree on who is where.
theorem channel_membership {removePositionalData : Bool} {anticheat : AnticheatConfig}
    {bans : BanList} (hrun : Run Orderly (.new removePositionalData anticheat bans) labels s) :
    (∀ k c session r, s.channels.lookup k = some c → c.clients.lookup session = some r →
      s.clients.lookup session = some r ∧ (s.get r).channelId = k) ∧
    (∀ k k' c c' session, s.channels.lookup k = some c → s.channels.lookup k' = some c' →
      session ∈ c.clients → session ∈ c'.clients → k = k') ∧
    (∀ session r, s.clients.lookup session = some r → (s.get r).channelId ≠ 0 →
      ∃ c, s.channels.lookup (s.get r).channelId = some c ∧ c.clients.lookup session = some r) ∧
    (∀ k c, s.channels.lookup k = some c → c.temporary = true → ∃ session, session ∈ c.clients) ∧
    s.channels.lookup 0 ≠ none := by
  have hmembership := membership_run hrun
  have hroom {k : UInt32} {c : Channel} (hc : s.channels.lookup k = some c) :
      s.registry.channels k = some c.room := by rw [registry_channels, hc]; rfl
  have hchannel {k : UInt32} {room : Room} (h : s.registry.channels k = some room) :
      ∃ c, s.channels.lookup k = some c ∧ c.room = room := Option.map_eq_some_iff.mp h
  have hmember {k session : UInt32} {c : Channel} {r : ClientRef}
      (hc : s.channels.lookup k = some c) (hr : c.clients.lookup session = some r) :
      s.clients.lookup session = some r ∧ (s.get r).channelId = k :=
    (hmembership.member (hroom hc) hr).resolve_left id
  refine ⟨fun k c session r => hmember, ?_, ?_, ?_, ?_⟩
  · intro k k' c c' session hc hc' hmem hmem'
    obtain ⟨r, hr⟩ := HashIndex.mem_iff_lookup.mp hmem
    obtain ⟨r', hr'⟩ := HashIndex.mem_iff_lookup.mp hmem'
    obtain ⟨hclient, hk⟩ := hmember hc hr
    obtain ⟨hclient', hk'⟩ := hmember hc' hr'
    rw [hclient] at hclient'
    cases hclient'
    exact hk.symm.trans hk'
  · intro session r hr hne
    obtain ⟨room, hlook, hmem⟩ := hmembership.placed hr hne
    obtain ⟨c, hc, rfl⟩ := hchannel hlook
    exact ⟨c, hc, hmem⟩
  · intro k c hc htemporary
    obtain ⟨session, r, hr⟩ := hmembership.occupied (hroom hc) htemporary
    exact ⟨session, HashIndex.mem_iff_lookup.mpr ⟨r, hr⟩⟩
  · obtain ⟨room, hlook, -⟩ := hmembership.root
    obtain ⟨c, hc, -⟩ := hchannel hlook
    rw [hc]
    exact Option.some_ne_none c

-- The first client makes a channel, the second one joins it.
def sampleChannelEvents : List (Instant × Event) :=
  sampleClients ++
    [(0, .Tcp 0 (.ChannelState ⟨none, some 0, some "den", none, some true, none⟩)),
      (0, .Tcp 1 (.UserState { sampleUserState 2 with channelId := some 1 }))]

theorem channel_membership_sample :
    (∃ labels, Run Orderly sampleServer labels (sampleServer.afterAll sampleChannelEvents)) ∧
    (sampleServer.afterAll sampleChannelEvents).clients.lookup 2 = some 1 ∧
    ((sampleServer.afterAll sampleChannelEvents).get 1).channelId ≠ 0 ∧
    ∃ c, (sampleServer.afterAll sampleChannelEvents).channels.lookup
        ((sampleServer.afterAll sampleChannelEvents).get 1).channelId = some c ∧
      c.clients.lookup 2 = some 1 := by
  obtain ⟨labels, hrun⟩ :=
    run_orderly (show sampleServer.orderly sampleChannelEvents = true by decide +kernel)
  have hclient : (sampleServer.afterAll sampleChannelEvents).clients.lookup 2 = some 1 := by
    decide +kernel
  have hchannel : ((sampleServer.afterAll sampleChannelEvents).get 1).channelId ≠ 0 := by
    decide +kernel
  obtain ⟨-, -, hplaced, -, -⟩ := channel_membership hrun
  exact ⟨⟨labels, hrun⟩, hclient, hchannel, hplaced 2 1 hclient hchannel⟩

-- An administrator has the second client disconnected.
def sampleKick : List (Instant × Event) :=
  sampleClients ++ [(0, .Admin (.PostAnticheatUser "bob" .Kick)), (0, .CleanRun)]

def sampleKicked : ServerState := sampleServer.afterAll sampleKick

theorem run_sampleKicked : ∃ labels, Run Orderly sampleServer labels sampleKicked :=
  run_orderly (show sampleServer.orderly sampleKick = true by decide +kernel)

def sampleGhostJoin : Event := .Tcp 1 (.UserState { sampleUserState 2 with channelId := some 0 })

-- The task that reads its stream takes a frame that is there rather than the cancelled
-- token. The join succeeds, and the root channel has a member that is not connected.
theorem dead_client_joins :
    (∃ labels, Run Orderly sampleServer labels sampleKicked) ∧
      sampleKicked.clients.lookup 2 = none ∧
      sampleKicked.outcome 0 sampleGhostJoin = some (.ok ()) ∧
      (sampleKicked.after 0 sampleGhostJoin).clients.lookup 2 = none ∧
      ((sampleKicked.after 0 sampleGhostJoin).channels.lookup 0).any
        (fun c => c.clients.keys.contains 2) = true := by
  refine ⟨run_sampleKicked, ?_⟩
  decide +kernel

-- A session is in none of the tables.
structure NoTrace (s : ServerState) (session : UInt32) : Prop where
  clients : session ∉ s.clients
  withoutUdp : session ∉ s.clientsWithoutUdp
  bySocket : ∀ addr r, s.clientsBySocket.lookup addr = some r → (s.get r).sessionId ≠ session
  channels : ∀ k c, s.channels.lookup k = some c → session ∉ c.clients ∧ session ∉ c.listeners

theorem mem_iff_ne_none (m : HashIndex UInt32 ClientRef) : session ∈ m ↔ m.lookup session ≠ none := by
  rw [ne_eq, AList.lookup_eq_none, not_not]

-- The tables of clients and addresses are cleared in any case, so what may be left
-- is in the channels.
theorem noTrace_disconnect_iff (hreachable : s.Reachable) (session : UInt32) :
    NoTrace (s.disconnect session) session ↔
      ∀ k room, (s.disconnect session).registry.channels k = some room →
        room.members session = none ∧ room.listeners session = none := by
  have hindexed : (s.disconnect session).registry.Indexed := by
    rw [registry_disconnect]
    exact hreachable.sound.indexed.drop session
  have hgone : (s.disconnect session).registry.clients session = none := by
    rw [registry_disconnect, Registry.drop_clients, Function.update_self]
  constructor
  · intro h k room hroom
    obtain ⟨c, hc, rfl⟩ := Option.map_eq_some_iff.mp hroom
    obtain ⟨hclients, hlisteners⟩ := h.channels k c hc
    exact ⟨AList.lookup_eq_none.mpr hclients, AList.lookup_eq_none.mpr hlisteners⟩
  · intro h
    constructor
    · exact AList.lookup_eq_none.mp hgone
    · rw [mem_iff_ne_none, not_not]
      by_contra hne
      obtain ⟨q, hq⟩ := Option.ne_none_iff_exists'.mp hne
      have hlook := hindexed.withoutUdp hq
      rw [hgone] at hlook
      cases hlook
    · intro addr q hq hsession
      have hlook := hindexed.running (hindexed.bySocket hq).1
      rw [show ((s.disconnect session).registry.entry q).sessionId = session from hsession,
        hgone] at hlook
      cases hlook
    · intro k c hc
      have hroom : (s.disconnect session).registry.channels k = some c.room := by
        rw [registry_channels, hc]
        rfl
      obtain ⟨hclients, hlisteners⟩ := h k c.room hroom
      exact ⟨AList.lookup_eq_none.mp hclients, AList.lookup_eq_none.mp hlisteners⟩

-- A disconnect leaves no trace of a session exactly if the session was a member of
-- no channel but the one its client is recorded in, and listened to none but one
-- that goes with it.
theorem disconnect_no_trace_iff (hreachable : s.Reachable)
    (hclient : s.clients.lookup session = some r) :
    NoTrace (s.disconnect session) session ↔
      ∀ k c, s.channels.lookup k = some c →
        (session ∈ c.clients → k = (s.get r).channelId) ∧
        (session ∈ c.listeners → k = (s.get r).channelId ∧ c.temporary = true ∧
          ∀ other ∈ c.clients, other = session) := by
  have hchannels : (s.disconnect session).registry.channels =
      ((s.registry.detach r session).leave session (s.get r).channelId).channels := by
    rw [registry_disconnect, Registry.drop_some hclient]
    rfl
  rw [noTrace_disconnect_iff hreachable, hchannels, Registry.leave_clears_iff]
  constructor
  · intro h k c hc
    have hroom : s.registry.channels k = some c.room := by
      rw [registry_channels, hc]
      rfl
    obtain ⟨hmember, hlistens⟩ := h k c.room hroom
    simp only [mem_iff_ne_none]
    exact ⟨hmember, hlistens⟩
  · intro h k room hroom
    obtain ⟨c, hc, rfl⟩ := Option.map_eq_some_iff.mp hroom
    have hboth := h k c hc
    simp only [mem_iff_ne_none] at hboth
    exact hboth

-- The second client has made a channel and is in it, and a ping of its own has come from an
-- address.
def sampleSettled : ServerState :=
  sampleServer.afterAll (sampleClients ++
    [(0, .Tcp 1 (.ChannelState ⟨none, some 0, some "den", none, some true, none⟩)),
      (0, .Udp ⟨"10.0.0.2", 50000⟩ [1, 28, 34, 207, 139, 163] [1])])

-- It is gone without a trace.
theorem disconnect_no_trace_sample :
    sampleSettled.Reachable ∧ sampleSettled.clients.lookup 2 = some 1 ∧
    (sampleSettled.channels.lookup 1).any (fun c => c.clients.keys.contains 2) = true ∧
    sampleSettled.clientsBySocket.lookup ⟨"10.0.0.2", 50000⟩ = some 1 ∧
    NoTrace (sampleSettled.disconnect 2) 2 := by
  have hreachable : sampleSettled.Reachable := reachable_sample _
  have hclient : sampleSettled.clients.lookup 2 = some 1 := by decide +kernel
  refine ⟨hreachable, hclient, by decide +kernel, by decide +kernel,
    (disconnect_no_trace_iff hreachable hclient).mpr ?_⟩
  have hplaced : sampleSettled.channels.index.values.all (fun c =>
      (!c.clients.keys.contains 2 || c.id == (sampleSettled.get 1).channelId) &&
        !c.listeners.keys.contains 2) = true := by decide +kernel
  intro k c hc
  have hc' := List.all_eq_true.mp hplaced c (HashIndex.mem_values.mpr ⟨k, hc⟩)
  rw [ChannelMap.id_of_lookup hc] at hc'
  simp only [Bool.and_eq_true, Bool.or_eq_true, Bool.not_eq_true', List.contains_eq_mem,
    decide_eq_false_iff_not, beq_iff_eq] at hc'
  exact ⟨fun h => hc'.1.resolve_left (not_not.mpr h), fun h => absurd h hc'.2⟩

-- The second client listens to the root channel and is disconnected; the channel
-- still has it among its listeners.
theorem listener_left_behind :
    let before := sampleServer.afterAll (sampleClients ++
      [(0, .Tcp 1 (.UserState { sampleUserState 2 with listeningChannelAdd := [0] }))])
    before.Reachable ∧ before.clients.lookup 2 = some 1 ∧
      (before.disconnect 2).clients.keys.contains 2 = false ∧
      ((before.disconnect 2).channels.lookup 0).any (fun c => c.listeners.keys.contains 2) = true := by
  refine ⟨reachable_sample _, ?_⟩
  decide +kernel

end Mumble.ServerState
