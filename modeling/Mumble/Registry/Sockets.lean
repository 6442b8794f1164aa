import Mumble.Udp

namespace Mumble

namespace Registry

variable {g g' : Registry} {r q : ClientRef} {session : UInt32} {op : Op}

-- The table of those without an address has exactly the clients that have none.
structure Awaiting (g : Registry) : Prop where
  iff : ∀ {session r}, g.withoutUdp session = some r ↔
    g.clients session = some r ∧ (g.entry r).udpSocketAddr = none

namespace Awaiting

theorem withChannels (h : g.Awaiting) (channels : UInt32 → Option Room) :
    { g with channels }.Awaiting := ⟨h.iff⟩

-- An entry is written, but not its address.
theorem setEntry (h : g.Awaiting) {f : Entry → Entry}
    (hsocket : ∀ e, (f e).udpSocketAddr = e.udpSocketAddr) : (g.setEntry r f).Awaiting := by
  constructor
  intro session q
  rw [setEntry_field (fun e => e.udpSocketAddr) hsocket q]
  exact h.iff

theorem add (h : g.Awaiting) (hindexed : g.Indexed) (hfree : g.clients session = none) :
    (g.add session).Awaiting := by
  constructor
  intro other q
  have hnew : (g.add session).entry g.next = ⟨session, 0, false, false, false, none⟩ :=
    Function.update_self ..
  by_cases hother : other = session
  · subst hother
    have hwithout : g.withoutUdp other = none := by
      cases hlook : g.withoutUdp other with
      | none => rfl
      | some p => exact absurd (hfree.symm.trans (h.iff.mp hlook).1) (by simp)
    have hleft : (g.add other).withoutUdp other = some g.next := keep_self hwithout
    have hright : (g.add other).clients other = some g.next := keep_self hfree
    rw [hleft, hright]
    constructor
    · rintro ⟨⟩
      rw [hnew]
      exact ⟨rfl, rfl⟩
    · exact fun hq => hq.1
  · have hleft : (g.add session).withoutUdp other = g.withoutUdp other := keep_ne hother
    have hright : (g.add session).clients other = g.clients other := keep_ne hother
    rw [hleft, hright, h.iff]
    refine and_congr_right fun hq => ?_
    have hold : (g.add session).entry q = g.entry q :=
      Function.update_of_ne (Nat.ne_of_lt (hindexed.connected hq).1.1) _ _
    rw [hold]

theorem bind (h : g.Awaiting) (hindexed : g.Indexed) {addr : SocketAddr}
    (hguard : (Op.Bind r addr).Guard g) : (g.bind r addr).Awaiting := by
  obtain ⟨⟨own, hown⟩, -⟩ := hguard
  have hsession : (g.entry r).sessionId = own := (hindexed.connected (h.iff.mp hown).1).2
  constructor
  intro other q
  have hleft : (g.bind r addr).withoutUdp other = some q ↔
      other ≠ (g.entry r).sessionId ∧ g.withoutUdp other = some q := erase_eq_some
  have hright : (g.bind r addr).clients other = g.clients other := rfl
  rw [hleft, hright, h.iff]
  by_cases hq : q = r
  · subst hq
    have hself : ((g.bind q addr).entry q).udpSocketAddr = some addr := by
      simp only [Registry.bind, release, setEntry_entry_self]
    rw [hself]
    constructor
    · rintro ⟨hne, hlook, -⟩
      exact absurd (hindexed.connected hlook).2.symm hne
    · rintro ⟨-, hnone⟩
      cases hnone
  · have hold : (g.bind r addr).entry q = g.entry q := Function.update_of_ne hq _ _
    rw [hold]
    constructor
    · exact fun hlook => hlook.2
    · rintro ⟨hlook, hnone⟩
      refine ⟨?_, hlook, hnone⟩
      rintro rfl
      have hsame := (h.iff.mp hown).1
      rw [← hsession, hlook] at hsame
      exact hq (Option.some.inj hsame)

theorem unbind (h : g.Awaiting) (hindexed : g.Indexed) (hguard : (Op.Unbind r).Guard g) :
    (g.unbind r).Awaiting := by
  have hrun : g.Running r := by
    rcases hguard with ⟨session, hsession⟩ | ⟨addr, haddr⟩
    · exact (hindexed.connected hsession).1
    · exact (hindexed.bySocket haddr).1
  have hown := hindexed.running hrun
  constructor
  intro other q
  have hright : (g.unbind r).clients other = g.clients other := rfl
  have hself : ((g.unbind r).entry r).udpSocketAddr = none := by
    simp only [Registry.unbind, release, setEntry_entry_self]
  have hold (hq : q ≠ r) : (g.unbind r).entry q = g.entry q :=
    Function.update_of_ne hq _ _
  rw [hright]
  constructor
  · intro hq
    rcases of_keep hq with hq | ⟨rfl, rfl⟩
    · obtain ⟨hlook, hnone⟩ := h.iff.mp hq
      refine ⟨hlook, ?_⟩
      by_cases hqr : q = r
      · rw [hqr, hself]
      · rw [hold hqr, hnone]
    · exact ⟨hown, hself⟩
  · rintro ⟨hlook, hnone⟩
    by_cases hqr : q = r
    · subst hqr
      have hother : other = (g.entry q).sessionId := (hindexed.connected hlook).2.symm
      subst hother
      -- the key is free, or it has this client
      cases hwithout : g.withoutUdp (g.entry q).sessionId with
      | none => exact keep_self hwithout
      | some p =>
          have hsame := (h.iff.mp hwithout).1
          rw [hlook] at hsame
          cases hsame
          exact keep_mono hwithout
    · rw [hold hqr] at hnone
      exact keep_mono (h.iff.mpr ⟨hlook, hnone⟩)

theorem drop (h : g.Awaiting) (hindexed : g.Indexed) (session : UInt32) :
    (g.drop session).Awaiting := by
  cases hlook : g.clients session with
  | none =>
      rw [drop_none hlook]
      exact h
  | some r =>
      rw [drop_some hlook]
      constructor
      intro other q
      have hleft : ((g.detach r session).leave session (g.entry r).channelId).withoutUdp other =
          some q ↔ other ≠ session ∧ g.withoutUdp other = some q := erase_eq_some
      have hright : ((g.detach r session).leave session (g.entry r).channelId).clients other =
          some q ↔ other ≠ session ∧ g.clients other = some q := erase_eq_some
      rw [hleft, hright, h.iff, and_assoc]
      refine and_congr_right fun hne => and_congr_right fun hq => ?_
      have hqr : q ≠ r := by
        rintro rfl
        exact hne ((hindexed.connected hq).2.symm.trans (hindexed.connected hlook).2)
      have hold : ((g.detach r session).leave session (g.entry r).channelId).entry q = g.entry q :=
        Function.update_of_ne hqr _ _
      rw [hold]

theorem join (h : g.Awaiting) (r : ClientRef) (k : UInt32) : (g.join r k).Awaiting := by
  obtain ⟨channels, hjoin⟩ := join_tables g r k
  have hmoved : (g.setEntry r fun e => { e with channelId := k }).Awaiting :=
    h.setEntry fun _ => rfl
  rw [hjoin]
  exact hmoved.withChannels channels

theorem step (h : g.Awaiting) (hindexed : g.Indexed) (hstep : g.Step op g') : g'.Awaiting := by
  obtain ⟨hguard, rfl⟩ := hstep
  cases op with
  | Add session => exact h.add hindexed hguard.1
  | SetMute r b | SetDeaf r b | FailJoin r k =>
      unfold Op.apply
      exact h.setEntry fun _ => rfl
  | Join r k _ => exact h.join r k
  | Create r k _ => exact (h.withChannels _).join r k
  | Listen r k | Unlisten r k => exact h.withChannels _
  | Bind r addr => exact h.bind hindexed hguard
  | Unbind r => exact h.unbind hindexed hguard
  | Drop session => exact h.drop hindexed session

end Awaiting

end Registry

namespace ServerState

open Mumble.Lib

variable {s s' : ServerState} {l : Label}

theorem awaiting_new (removePositionalData : Bool) (anticheat : AnticheatConfig) (bans : BanList) :
    (ServerState.new removePositionalData anticheat bans).registry.Awaiting := by
  constructor
  intro session r
  exact ⟨fun hr => (nomatch hr), fun hr => (nomatch hr.1)⟩

theorem awaiting_transition (hsound : s.registry.Sound) (h : s.registry.Awaiting)
    (hstep : s.Transition l s') : s'.registry.Awaiting := by
  have hboth := (step_follows hsound.counted hstep.step).invariant
    (I := fun g => g.Sound ∧ g.Awaiting)
    (fun _ hg hop => ⟨hg.1.step hop, hg.2.step hg.1.indexed hop⟩) ⟨hsound, h⟩
  exact hboth.2

theorem Reachable.awaiting (h : s.Reachable) : s.registry.Awaiting := by
  obtain ⟨removePositionalData, anticheat, bans, labels, hrun⟩ := h
  have hboth := hrun.invariant (I := fun s => s.registry.Sound ∧ s.registry.Awaiting)
    (P := fun _ => True)
    (fun _ hs hstep => ⟨sound_transition hs.1 hstep, awaiting_transition hs.1 hs.2 hstep⟩)
    (fun _ _ => trivial)
    ⟨sound_new removePositionalData anticheat bans,
      awaiting_new removePositionalData anticheat bans⟩
  exact hboth.2

-- The two tables of addresses say what the clients' own entries say.
theorem sockets_consistent (h : s.Reachable) :
    (∀ addr r, s.clientsBySocket.lookup addr = some r ↔
      (∃ session, s.clients.lookup session = some r) ∧ (s.get r).udpSocketAddr = some addr) ∧
    (∀ session r, s.clientsWithoutUdp.lookup session = some r ↔
      s.clients.lookup session = some r ∧ (s.get r).udpSocketAddr = none) ∧
    (∀ session session' r r' addr, s.clients.lookup session = some r →
      s.clients.lookup session' = some r' → (s.get r).udpSocketAddr = some addr →
      (s.get r').udpSocketAddr = some addr → session = session' ∧ r = r') := by
  have hindexed := h.sound.indexed
  have hbound {session : UInt32} {r : ClientRef} {addr : SocketAddr}
      (hr : s.clients.lookup session = some r) (haddr : (s.get r).udpSocketAddr = some addr) :
      s.clientsBySocket.lookup addr = some r :=
    hindexed.bound (hindexed.connected hr).1 haddr
  refine ⟨fun addr r => ⟨fun hr => ?_, ?_⟩, fun session r => h.awaiting.iff, ?_⟩
  · obtain ⟨hrunning, haddr⟩ := hindexed.bySocket hr
    exact ⟨⟨_, hindexed.running hrunning⟩, haddr⟩
  · rintro ⟨⟨session, hr⟩, haddr⟩
    exact hbound hr haddr
  · intro session session' r r' addr hr hr' haddr haddr'
    have hsame : r = r' :=
      Option.some.inj ((hbound hr haddr).symm.trans (hbound hr' haddr'))
    subst hsame
    exact ⟨(hindexed.connected hr).2.symm.trans (hindexed.connected hr').2, rfl⟩

theorem sockets_consistent_bound :
    boundServer.Reachable ∧ boundServer.clientsBySocket.lookup eveAddr = some 0 ∧
      (∃ session, boundServer.clients.lookup session = some 0) ∧
      (boundServer.get 0).udpSocketAddr = some eveAddr := by
  have hreachable : boundServer.Reachable := reachable_sample _
  have hbound : boundServer.clientsBySocket.lookup eveAddr = some 0 := by decide +kernel
  exact ⟨hreachable, hbound, ((sockets_consistent hreachable).1 eveAddr 0).mp hbound⟩

end ServerState

end Mumble
