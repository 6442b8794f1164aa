import Mumble.Registry.Events

namespace Mumble.Registry

variable {g g' : Registry} {r q : ClientRef} {k session : UInt32} {op : Op}

section Tables

variable {κ : Type} [DecidableEq κ] {m : κ → Option ClientRef} {x y : κ}

theorem keep_self (h : m x = none) : keep m x r x = some r := by
  rw [keep, Function.update_self, h, Option.getD_none]

theorem keep_ne (h : y ≠ x) : keep m x r y = m y := Function.update_of_ne h _ _

theorem keep_mono (h : m y = some q) : keep m x r y = some q := by
  by_cases hy : y = x
  · subst hy
    rw [keep, Function.update_self, h, Option.getD_some]
  · rw [keep_ne hy, h]

theorem of_keep (h : keep m x r y = some q) : m y = some q ∨ y = x ∧ q = r := by
  by_cases hy : y = x
  · subst hy
    rw [keep, Function.update_self, Option.some_inj] at h
    cases hlook : m y with
    | none =>
        rw [hlook, Option.getD_none] at h
        exact .inr ⟨rfl, h.symm⟩
    | some p =>
        rw [hlook, Option.getD_some] at h
        exact .inl (congrArg some h)
  · rw [keep_ne hy] at h
    exact .inl h

theorem erase_eq_some : Function.update m x none y = some q ↔ y ≠ x ∧ m y = some q := by
  by_cases hy : y = x
  · subst hy
    simp
  · rw [Function.update_of_ne hy]
    simp [hy]

end Tables

-- Dropping a client takes it out of the tables of clients; what follows concerns
-- the channels.
def detach (g : Registry) (r : ClientRef) (session : UInt32) : Registry :=
  { (g.setEntry r fun e => { e with cancelled := true, udpSocketAddr := none }).release
      (g.entry r).udpSocketAddr with
    clients := Function.update g.clients session none
    withoutUdp := Function.update g.withoutUdp session none
    size := g.size - 1
    active := g.active - 1 }

theorem drop_some (h : g.clients session = some r) :
    g.drop session = (g.detach r session).leave session (g.entry r).channelId := by
  unfold drop
  rw [h]
  rfl

theorem drop_none (h : g.clients session = none) : g.drop session = g := by
  unfold drop
  rw [h]

-- What a join leaves alone.
theorem join_tables (g : Registry) (r : ClientRef) (k : UInt32) :
    ∃ channels, g.join r k =
      { g.setEntry r fun e => { e with channelId := k } with channels } := by
  unfold join
  split_ifs
  · exact ⟨_, rfl⟩
  · exact ⟨_, rfl⟩

theorem Counted.drop (h : g.Counted) (hpopulated : g.Populated session) :
    (g.drop session).Counted := by
  cases hlook : g.clients session with
  | none =>
      rw [drop_none hlook]
      exact h
  | some r =>
      have hsize : g.size ≠ 0 := hpopulated (by rw [hlook]; exact Option.some_ne_none r)
      have hone : (1 : UInt32) ≤ g.active := by
        rw [UInt32.le_iff_toNat_le, h.1]
        exact Nat.one_le_iff_ne_zero.mpr hsize
      have hcount : (g.active - 1).toNat = g.size - 1 := by
        rw [UInt32.toNat_sub_of_le _ _ hone, h.1]
        rfl
      rw [drop_some hlook]
      exact ⟨hcount, Nat.le_trans (Nat.sub_le ..) h.2⟩

-- The counter stays right as long as new clients come only while there is room.
theorem Counted.step (h : g.Counted) (hstep : g.Step op g') : g'.Counted := by
  obtain ⟨hguard, rfl⟩ := hstep
  cases op with
  | Add session =>
      have hroom : g.active.toNat < 4096 := hguard.2
      have hcount : (g.active + 1).toNat = g.size + 1 := by
        rw [UInt32.toNat_add, UInt32.toNat_one, h.1]
        have hcounted := h.1
        omega
      refine ⟨hcount, ?_⟩
      have hsize : g.size < MAX_CLIENTS := h.1 ▸ hguard.2
      exact hsize
  | SetMute r b | SetDeaf r b | FailJoin r k | Listen r k | Unlisten r k | Bind r addr | Unbind r =>
      exact h
  | Join r k alive =>
      obtain ⟨channels, hjoin⟩ := join_tables g r k
      simp only [Op.apply, hjoin]
      exact h
  | Create r k alive =>
      obtain ⟨channels, hjoin⟩ := join_tables (g.create k) r k
      simp only [Op.apply, hjoin]
      exact h
  | Drop session => exact h.drop hguard

-- The tables of clients say the same about who is there, under which session and
-- at which address.
structure Indexed (g : Registry) : Prop where
  running : ∀ {r}, g.Running r → g.clients (g.entry r).sessionId = some r
  connected : ∀ {session r}, g.clients session = some r →
    g.Running r ∧ (g.entry r).sessionId = session
  withoutUdp : ∀ {session r}, g.withoutUdp session = some r → g.clients session = some r
  bySocket : ∀ {addr r}, g.bySocket addr = some r →
    g.Running r ∧ (g.entry r).udpSocketAddr = some addr
  bound : ∀ {r addr}, g.Running r → (g.entry r).udpSocketAddr = some addr →
    g.bySocket addr = some r

namespace Indexed

theorem withChannels (h : g.Indexed) (channels : UInt32 → Option Room) :
    { g with channels }.Indexed :=
  ⟨h.running, h.connected, h.withoutUdp, h.bySocket, h.bound⟩

-- An entry is written, and the tables do not depend on what changes in it.
theorem setEntry (h : g.Indexed) {f : Entry → Entry}
    (hsession : ∀ e, (f e).sessionId = e.sessionId)
    (hcancelled : ∀ e, (f e).cancelled = e.cancelled)
    (hsocket : ∀ e, (f e).udpSocketAddr = e.udpSocketAddr) : (g.setEntry r f).Indexed := by
  have hsessions (q : ClientRef) :
      ((g.setEntry r f).entry q).sessionId = (g.entry q).sessionId :=
    setEntry_field (fun e => e.sessionId) hsession q
  have hsockets (q : ClientRef) :
      ((g.setEntry r f).entry q).udpSocketAddr = (g.entry q).udpSocketAddr :=
    setEntry_field (fun e => e.udpSocketAddr) hsocket q
  have hrunning (q : ClientRef) : (g.setEntry r f).Running q ↔ g.Running q := by
    unfold Running
    rw [setEntry_field (fun e => e.cancelled) hcancelled q, setEntry_next]
  constructor
  · intro q hq
    rw [hsessions]
    exact h.running ((hrunning q).mp hq)
  · intro session q hq
    rw [hrunning, hsessions]
    exact h.connected hq
  · exact h.withoutUdp
  · intro addr q hq
    rw [hrunning, hsockets]
    exact h.bySocket hq
  · intro q addr hq haddr
    rw [hsockets] at haddr
    exact h.bound ((hrunning q).mp hq) haddr

theorem add (h : g.Indexed) (hfree : g.clients session = none) : (g.add session).Indexed := by
  have hwithout : g.withoutUdp session = none := by
    cases hlook : g.withoutUdp session with
    | none => rfl
    | some q =>
        rw [h.withoutUdp hlook] at hfree
        cases hfree
  -- whoever was there before keeps its entry
  have hold {q : ClientRef} (hq : g.Running q) :
      (g.add session).entry q = g.entry q ∧ (g.add session).Running q := by
    have hentry : (g.add session).entry q = g.entry q :=
      Function.update_of_ne (Nat.ne_of_lt hq.1) _ _
    exact ⟨hentry, Nat.lt_succ_of_lt hq.1, hentry ▸ hq.2⟩
  have hnew : (g.add session).entry g.next = ⟨session, 0, false, false, false, none⟩ :=
    Function.update_self ..
  have hrunning {q : ClientRef} (hq : (g.add session).Running q) :
      g.Running q ∨ q = g.next := by
    by_cases hqn : q = g.next
    · exact .inr hqn
    · have hentry : (g.add session).entry q = g.entry q := Function.update_of_ne hqn _ _
      exact .inl ⟨Nat.lt_of_le_of_ne (Nat.le_of_lt_succ hq.1) hqn, hentry ▸ hq.2⟩
  constructor
  · intro q hq
    rcases hrunning hq with hq | rfl
    · rw [(hold hq).1]
      exact keep_mono (h.running hq)
    · rw [hnew]
      exact keep_self hfree
  · intro other q hq
    rcases of_keep hq with hq | ⟨rfl, rfl⟩
    · obtain ⟨hrun, hsession⟩ := h.connected hq
      rw [(hold hrun).1]
      exact ⟨(hold hrun).2, hsession⟩
    · rw [hnew]
      exact ⟨⟨Nat.lt_succ_self _, by rw [hnew]⟩, rfl⟩
  · intro other q hq
    rcases of_keep hq with hq | ⟨rfl, rfl⟩
    · exact keep_mono (h.withoutUdp hq)
    · exact keep_self hfree
  · intro addr q hq
    obtain ⟨hrun, haddr⟩ := h.bySocket hq
    rw [(hold hrun).1]
    exact ⟨(hold hrun).2, haddr⟩
  · intro q addr hq haddr
    rcases hrunning hq with hq | rfl
    · rw [(hold hq).1] at haddr
      exact h.bound hq haddr
    · rw [hnew] at haddr
      cases haddr

-- A client loses its address, or gets one, in its entry and in the table.
theorem release_eq_some {addr : SocketAddr} {old : Option SocketAddr} :
    (g.release old).bySocket addr = some q ↔ some addr ≠ old ∧ g.bySocket addr = some q := by
  unfold release
  dsimp only
  split_ifs with haddr
  · simp [haddr]
  · simp [haddr]

theorem addr_ne (h : g.Indexed) (hr : g.Running r) (hq : g.Running q) (hne : q ≠ r)
    {addr : SocketAddr} (haddr : (g.entry q).udpSocketAddr = some addr) :
    some addr ≠ (g.entry r).udpSocketAddr := by
  intro hsame
  have hbound := h.bound hr hsame.symm
  rw [h.bound hq haddr] at hbound
  exact hne (Option.some.inj hbound)

theorem detach (h : g.Indexed) (hlook : g.clients session = some r) :
    (g.detach r session).Indexed := by
  obtain ⟨hrun, hsession⟩ := h.connected hlook
  have hother {q : ClientRef} (hq : q ≠ r) : (g.detach r session).entry q = g.entry q :=
    Function.update_of_ne hq _ _
  have hgone : ((g.detach r session).entry r).cancelled = true := by
    simp only [Registry.detach, release, setEntry_entry_self]
  -- the others are running as before
  have hrunning {q : ClientRef} : (g.detach r session).Running q ↔ q ≠ r ∧ g.Running q := by
    by_cases hq : q = r
    · subst hq
      simp [Running, hgone]
    · unfold Running
      rw [hother hq]
      simp only [ne_eq, hq, not_false_eq_true, true_and]
      exact Iff.rfl
  have hsession_ne {q : ClientRef} (hq : q ≠ r) (hrunq : g.Running q) :
      (g.entry q).sessionId ≠ session := by
    intro hsame
    have hlookq := h.running hrunq
    rw [hsame, hlook] at hlookq
    exact hq (Option.some.inj hlookq).symm
  constructor
  · intro q hq
    obtain ⟨hne, hrunq⟩ := hrunning.mp hq
    rw [hother hne]
    exact erase_eq_some.mpr ⟨hsession_ne hne hrunq, h.running hrunq⟩
  · intro other q hq
    obtain ⟨hne, hq⟩ := erase_eq_some.mp hq
    obtain ⟨hrunq, hsessionq⟩ := h.connected hq
    have hqr : q ≠ r := by
      rintro rfl
      exact hne (hsessionq.symm.trans hsession)
    rw [hother hqr]
    exact ⟨hrunning.mpr ⟨hqr, hrunq⟩, hsessionq⟩
  · intro other q hq
    obtain ⟨hne, hq⟩ := erase_eq_some.mp hq
    exact erase_eq_some.mpr ⟨hne, h.withoutUdp hq⟩
  · intro addr q hq
    obtain ⟨haddr, hq⟩ := release_eq_some.mp hq
    obtain ⟨hrunq, haddrq⟩ := h.bySocket hq
    have hqr : q ≠ r := by
      rintro rfl
      exact haddr haddrq.symm
    rw [hother hqr]
    exact ⟨hrunning.mpr ⟨hqr, hrunq⟩, haddrq⟩
  · intro q addr hq haddr
    obtain ⟨hqr, hrunq⟩ := hrunning.mp hq
    rw [hother hqr] at haddr
    exact release_eq_some.mpr ⟨h.addr_ne hrun hrunq hqr haddr, h.bound hrunq haddr⟩

-- A client that is running gets a new address in place of the one it had, or
-- none; nobody else has that address.
theorem rebind (h : g.Indexed) (hrun : g.Running r) (new : Option SocketAddr)
    {withoutUdp : UInt32 → Option ClientRef} {bySocket : SocketAddr → Option ClientRef}
    (hwithout : ∀ {session q}, withoutUdp session = some q → g.clients session = some q)
    (hsocket : ∀ {addr q}, bySocket addr = some q ↔
      (q = r ∧ new = some addr) ∨
      (some addr ≠ (g.entry r).udpSocketAddr ∧ g.bySocket addr = some q)) :
    { g.setEntry r fun e => { e with udpSocketAddr := new } with
      withoutUdp, bySocket }.Indexed := by
  have hother {q : ClientRef} (hq : q ≠ r) :
      (g.setEntry r fun e => { e with udpSocketAddr := new }).entry q = g.entry q :=
    setEntry_entry_ne _ hq
  have hself : (g.setEntry r fun e => { e with udpSocketAddr := new }).entry r =
      { g.entry r with udpSocketAddr := new } := setEntry_entry_self ..
  have hsession (q : ClientRef) :
      ((g.setEntry r fun e => { e with udpSocketAddr := new }).entry q).sessionId =
        (g.entry q).sessionId := setEntry_field (fun e => e.sessionId) (by intro e; rfl) q
  have hrunning (q : ClientRef) : { g.setEntry r fun e => { e with udpSocketAddr := new } with
      withoutUdp, bySocket }.Running q ↔ g.Running q := by
    unfold Running
    rw [setEntry_field (fun e => e.cancelled) (by intro e; rfl) q]
    exact Iff.rfl
  constructor
  · intro q hq
    rw [hsession]
    exact h.running ((hrunning q).mp hq)
  · intro session q hq
    rw [hrunning, hsession]
    exact h.connected hq
  · exact hwithout
  · intro addr q hq
    rw [hrunning]
    rcases hsocket.mp hq with ⟨rfl, hnew⟩ | ⟨hne, hq⟩
    · rw [hself]
      exact ⟨hrun, hnew⟩
    · obtain ⟨hrunq, haddr⟩ := h.bySocket hq
      have hqr : q ≠ r := by
        rintro rfl
        exact hne haddr.symm
      rw [hother hqr]
      exact ⟨hrunq, haddr⟩
  · intro q addr hq haddr
    have hrunq := (hrunning q).mp hq
    by_cases hqr : q = r
    · subst hqr
      rw [hself] at haddr
      exact hsocket.mpr (.inl ⟨rfl, haddr⟩)
    · rw [hother hqr] at haddr
      exact hsocket.mpr (.inr ⟨h.addr_ne hrun hrunq hqr haddr, h.bound hrunq haddr⟩)

theorem bind (h : g.Indexed) {addr : SocketAddr}
    (hguard : (Op.Bind r addr).Guard g) : (g.bind r addr).Indexed := by
  obtain ⟨⟨session, hwithout⟩, hfree⟩ := hguard
  have hrun := (h.connected (h.withoutUdp hwithout)).1
  have hreleased : ((g.setEntry r fun e => { e with udpSocketAddr := some addr }).release
      (g.entry r).udpSocketAddr).bySocket addr = none := by
    simp only [release, setEntry_bySocket, hfree, ite_self]
  apply h.rebind hrun (some addr)
  · intro session q hq
    exact h.withoutUdp (erase_eq_some.mp hq).2
  · intro other q
    by_cases hother : other = addr
    · subst hother
      rw [keep_self hreleased, hfree]
      simp [eq_comm]
    · rw [keep_ne hother, release_eq_some, setEntry_bySocket]
      simp [Ne.symm hother]

theorem unbind (h : g.Indexed) (hguard : (Op.Unbind r).Guard g) : (g.unbind r).Indexed := by
  have hrun : g.Running r := by
    rcases hguard with ⟨session, hsession⟩ | ⟨addr, haddr⟩
    · exact (h.connected hsession).1
    · exact (h.bySocket haddr).1
  apply h.rebind hrun none
  · intro session q hq
    rcases of_keep hq with hq | ⟨rfl, rfl⟩
    · exact h.withoutUdp hq
    · exact h.running hrun
  · intro addr q
    rw [release_eq_some, setEntry_bySocket]
    simp

theorem drop (h : g.Indexed) (session : UInt32) : (g.drop session).Indexed := by
  cases hlook : g.clients session with
  | none =>
      rw [drop_none hlook]
      exact h
  | some r =>
      rw [drop_some hlook]
      exact (h.detach hlook).withChannels _

theorem join (h : g.Indexed) (r : ClientRef) (k : UInt32) : (g.join r k).Indexed := by
  obtain ⟨channels, hjoin⟩ := join_tables g r k
  have hmoved : (g.setEntry r fun e => { e with channelId := k }).Indexed :=
    h.setEntry (fun _ => rfl) (fun _ => rfl) fun _ => rfl
  rw [hjoin]
  exact hmoved.withChannels channels

theorem step (h : g.Indexed) (hstep : g.Step op g') : g'.Indexed := by
  obtain ⟨hguard, rfl⟩ := hstep
  cases op with
  | Add session => exact h.add hguard.1
  | SetMute r b | SetDeaf r b | FailJoin r k =>
      unfold Op.apply
      exact h.setEntry (fun _ => rfl) (fun _ => rfl) fun _ => rfl
  | Join r k alive => exact h.join r k
  | Create r k alive => exact (h.withChannels _).join r k
  | Listen r k | Unlisten r k => exact h.withChannels _
  | Bind r addr => exact h.bind hguard
  | Unbind r => exact h.unbind hguard
  | Drop session => exact h.drop session

end Indexed

theorem drop_clients (g : Registry) (session : UInt32) :
    (g.drop session).clients = Function.update g.clients session none := by
  cases hlook : g.clients session with
  | none => rw [drop_none hlook, ← hlook, Function.update_eq_self]
  | some r =>
      rw [drop_some hlook]
      rfl

-- What becomes of an entry when a client is dropped.
theorem drop_field {α : Type} (φ : Entry → α)
    (h : ∀ e, φ { e with cancelled := true, udpSocketAddr := none } = φ e) (q : ClientRef) :
    φ ((g.drop session).entry q) = φ (g.entry q) := by
  cases hlook : g.clients session with
  | none => rw [drop_none hlook]
  | some r =>
      rw [drop_some hlook]
      exact setEntry_field φ h q

-- The operations that leave a part of every entry alone.
def Op.Keeps {α : Type} (φ : Entry → α) : Op → Prop
  | .Add _ => False
  | .SetMute _ mute => ∀ e, φ { e with mute } = φ e
  | .SetDeaf _ deaf => ∀ e, φ { e with deaf } = φ e
  | .Join _ k _ | .FailJoin _ k | .Create _ k _ => ∀ e, φ { e with channelId := k } = φ e
  | .Listen _ _ | .Unlisten _ _ => True
  | .Bind _ addr => ∀ e, φ { e with udpSocketAddr := some addr } = φ e
  | .Unbind _ => ∀ e, φ { e with udpSocketAddr := none } = φ e
  | .Drop _ => ∀ e, φ { e with cancelled := true, udpSocketAddr := none } = φ e

theorem Op.entry_field {α : Type} (φ : Entry → α) (h : op.Keeps φ) (q : ClientRef) :
    φ ((op.apply g).entry q) = φ (g.entry q) := by
  cases op with
  | Add session => exact absurd h id
  | SetMute r b => exact setEntry_field φ h q
  | SetDeaf r b => exact setEntry_field φ h q
  | FailJoin r k => exact setEntry_field φ h q
  | Bind r addr => exact setEntry_field φ h q
  | Unbind r => exact setEntry_field φ h q
  | Join r k alive =>
      rw [Op.apply, join_entry]
      exact setEntry_field φ h q
  | Create r k alive =>
      rw [Op.apply, join_entry]
      exact setEntry_field (g := g.create k) φ h q
  | Listen r k | Unlisten r k => rfl
  | Drop session => exact drop_field φ h q

-- What holds of the tables in every run.
structure Sound (g : Registry) : Prop where
  counted : g.Counted
  indexed : g.Indexed

theorem Sound.step (h : g.Sound) (hstep : g.Step op g') : g'.Sound :=
  ⟨h.counted.step hstep, h.indexed.step hstep⟩

end Mumble.Registry
