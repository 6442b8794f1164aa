import Mumble.Registry.Invariants

namespace Mumble.Registry

variable {g g' : Registry} {r q : ClientRef} {k k' session other : UInt32} {room : Room} {op : Op}

-- Where clients are, as the clients and the channels record it. A stale membership
-- is one that the client knows nothing of.
structure Consistent (stale : UInt32 → UInt32 → Prop) (g : Registry) : Prop where
  member : ∀ {k room session r}, g.channels k = some room → room.members session = some r →
    stale session k ∨ g.clients session = some r ∧ (g.entry r).channelId = k
  placed : ∀ {session r}, g.clients session = some r → (g.entry r).channelId ≠ 0 →
    ∃ room, g.channels (g.entry r).channelId = some room ∧ room.members session = some r
  occupied : ∀ {k room}, g.channels k = some room → room.temporary = true →
    ∃ session r, room.members session = some r
  root : ∃ room, g.channels 0 = some room ∧ room.temporary = false

abbrev Membership (g : Registry) : Prop := g.Consistent fun _ _ => False

-- No join fails, and nobody who was disconnected joins or makes a channel.
def Op.Orderly : Op → Prop
  | .FailJoin _ _ => False
  | .Join _ _ alive | .Create _ _ alive => alive = true
  | _ => True

-- A channel after a session has left it.
theorem leave_channels_ne (h : k' ≠ k) : (g.leave session k).channels k' = g.channels k' :=
  setRoom_channels_ne _ h

theorem of_leave (h : (g.leave session k).channels k = some room) :
    ∃ old, g.channels k = some old ∧
      room = { old with members := Function.update old.members session none } ∧
      (room.temporary = true → ∃ other q, room.members other = some q) := by
  unfold leave at h
  rw [setRoom_channels_self] at h
  obtain ⟨old, hold, h⟩ := Option.bind_eq_some_iff.mp h
  dsimp only at h
  split_ifs at h with hgone
  cases h
  refine ⟨old, hold, rfl, ?_⟩
  intro htemporary
  by_contra hempty
  refine hgone ⟨htemporary, fun other => ?_⟩
  rw [Option.eq_none_iff_forall_ne_some]
  exact fun q hq => hempty ⟨other, q, hq⟩

theorem leave_stays (h : g.channels k = some room)
    (hstays : room.temporary = false ∨ ∃ other q, other ≠ session ∧ room.members other = some q) :
    (g.leave session k).channels k =
      some { room with members := Function.update room.members session none } := by
  unfold leave
  rw [setRoom_channels_self, h, Option.bind_some]
  refine if_neg ?_
  rintro ⟨htemporary, hempty⟩
  rcases hstays with hstays | ⟨other, q, hne, hq⟩
  · rw [htemporary] at hstays
    cases hstays
  · have hnone := hempty other
    rw [Function.update_of_ne hne, hq] at hnone
    cases hnone

-- When a session that leaves one channel is then in no channel, as a member or as a
-- listener.
theorem leave_clears_iff (g : Registry) (session k : UInt32) :
    (∀ k' room, (g.leave session k).channels k' = some room →
      room.members session = none ∧ room.listeners session = none) ↔
    ∀ k' room, g.channels k' = some room →
      (room.members session ≠ none → k' = k) ∧
      (room.listeners session ≠ none → k' = k ∧ room.temporary = true ∧
        ∀ other, room.members other ≠ none → other = session) := by
  constructor
  · intro h k' room hroom
    by_cases hk : k' = k
    · subst hk
      refine ⟨fun _ => rfl, fun hlistens => ⟨rfl, ?_⟩⟩
      -- a channel that stayed would still have the listener
      have hgone : ¬(room.temporary = false ∨
          ∃ other q, other ≠ session ∧ room.members other = some q) :=
        fun hstays => hlistens (h k' _ (leave_stays hroom hstays)).2
      obtain ⟨htemporary, hempty⟩ := not_or.mp hgone
      refine ⟨Bool.not_eq_false _ ▸ htemporary, fun other hother => ?_⟩
      obtain ⟨q, hq⟩ := Option.ne_none_iff_exists'.mp hother
      by_contra hne
      exact hempty ⟨other, q, hne, hq⟩
    · have hcleared := h k' room ((leave_channels_ne hk).trans hroom)
      exact ⟨fun hmember => absurd hcleared.1 hmember, fun hlistens => absurd hcleared.2 hlistens⟩
  · intro h k' room hroom
    by_cases hk : k' = k
    · subst hk
      obtain ⟨old, hold, rfl, hoccupied⟩ := of_leave hroom
      refine ⟨Function.update_self .., ?_⟩
      by_contra hlistens
      obtain ⟨-, htemporary, honly⟩ := (h k' old hold).2 hlistens
      obtain ⟨other, q, hq⟩ := hoccupied htemporary
      obtain ⟨hne, hq⟩ := erase_eq_some.mp hq
      exact hne (honly other (by rw [hq]; exact Option.some_ne_none q))
    · rw [leave_channels_ne hk] at hroom
      refine ⟨?_, ?_⟩
      · by_contra hmember
        exact hk ((h k' room hroom).1 hmember)
      · by_contra hlistens
        exact hk ((h k' room hroom).2 hlistens).1

namespace Consistent

variable {stale : UInt32 → UInt32 → Prop}

-- The channels and what the clients record of them stay as they are.
theorem of_same (h : g.Consistent stale) (hchannels : g'.channels = g.channels)
    (hclients : g'.clients = g.clients)
    (hentry : ∀ q, (g'.entry q).channelId = (g.entry q).channelId) : g'.Consistent stale := by
  constructor
  · intro k room session q hroom hmember
    rw [hchannels] at hroom
    rw [hclients, hentry]
    exact h.member hroom hmember
  · intro session q hq hne
    rw [hclients] at hq
    rw [hentry] at hne ⊢
    rw [hchannels]
    exact h.placed hq hne
  · intro k room hroom
    rw [hchannels] at hroom
    exact h.occupied hroom
  · rw [hchannels]
    exact h.root

-- The session whose membership was stale leaves the channel.
theorem leave (h : g.Consistent fun other k' => other = session ∧ k' = k)
    (hmoved : ∀ r, g.clients session = some r → (g.entry r).channelId ≠ k) :
    (g.leave session k).Membership := by
  constructor
  · intro k' room other q hroom hmember
    by_cases hk : k' = k
    · subst hk
      obtain ⟨old, hold, rfl, -⟩ := of_leave hroom
      obtain ⟨hne, hmember⟩ := erase_eq_some.mp hmember
      exact .inr ((h.member hold hmember).resolve_left fun hstale => hne hstale.1)
    · rw [leave_channels_ne hk] at hroom
      exact .inr ((h.member hroom hmember).resolve_left fun hstale => hk hstale.2)
  · intro other q hq hne
    obtain ⟨room, hroom, hmember⟩ := h.placed hq hne
    by_cases hk : (g.entry q).channelId = k
    · have hother : other ≠ session := by
        rintro rfl
        exact hmoved q hq hk
      have hstays : (g.leave session (g.entry q).channelId).channels (g.entry q).channelId =
          some { room with members := Function.update room.members session none } :=
        leave_stays hroom (.inr ⟨other, q, hother, hmember⟩)
      rw [hk] at hstays
      refine ⟨_, (congrArg _ hk).trans hstays, ?_⟩
      exact erase_eq_some.mpr ⟨hother, hmember⟩
    · exact ⟨room, (leave_channels_ne hk).trans hroom, hmember⟩
  · intro k' room hroom htemporary
    by_cases hk : k' = k
    · subst hk
      obtain ⟨-, -, -, hoccupied⟩ := of_leave hroom
      exact hoccupied htemporary
    · rw [leave_channels_ne hk] at hroom
      exact h.occupied hroom htemporary
  · obtain ⟨room, hroom, htemporary⟩ := h.root
    by_cases hk : k = 0
    · subst hk
      exact ⟨_, leave_stays hroom (.inl htemporary), htemporary⟩
    · exact ⟨room, (leave_channels_ne (Ne.symm hk)).trans hroom, htemporary⟩

end Consistent

-- A channel that is there is not created anew.
theorem create_of_some (h : g.channels k = some room) : g.create k = g := by
  unfold create
  rw [h, Option.getD_some, ← h, Function.update_eq_self]

-- The client goes into a channel that may be new, and is still a member of the one
-- it was in.
def entered (g : Registry) (r : ClientRef) (k : UInt32) : Registry :=
  ((g.create k).setEntry r fun e => { e with channelId := k }).enter r k

theorem entered_channels_self (g : Registry) (r : ClientRef) (k : UInt32) :
    ∃ base : Room, (g.entered r k).channels k =
        some { base with members := keep base.members (g.entry r).sessionId r } ∧
      (g.channels k = some base ∨
        g.channels k = none ∧ ∀ session, base.members session = none) := by
  unfold entered enter
  rw [setRoom_channels_self, setEntry_channels, create_channels_self, Option.bind_some,
    setEntry_entry_self]
  refine ⟨_, rfl, ?_⟩
  cases g.channels k with
  | none => exact .inr ⟨rfl, fun _ => rfl⟩
  | some room => exact .inl rfl

theorem entered_channels_ne (h : k' ≠ k) : (g.entered r k).channels k' = g.channels k' := by
  unfold entered enter
  rw [setRoom_channels_ne _ h, setEntry_channels, create_channels_ne h]

theorem entered_entry_ne (h : q ≠ r) : (g.entered r k).entry q = g.entry q :=
  Function.update_of_ne h _ _

theorem entered_entry_self (g : Registry) (r : ClientRef) (k : UInt32) :
    (g.entered r k).entry r = { g.entry r with channelId := k } := Function.update_self ..

namespace Consistent

theorem enter (h : g.Membership) (hindexed : g.Indexed) (hrun : g.Running r) :
    (g.entered r k).Consistent fun other k' =>
      k' ≠ k ∧ other = (g.entry r).sessionId ∧ k' = (g.entry r).channelId := by
  have hclient : g.clients (g.entry r).sessionId = some r := hindexed.running hrun
  have hmoved : ((g.entered r k).entry r).channelId = k := by rw [entered_entry_self]
  obtain ⟨base, hself, hbase⟩ := entered_channels_self g r k
  -- a member of the channel before is one of the clients and recorded there
  have hmember {other : UInt32} {q : ClientRef} (hq : base.members other = some q) :
      g.clients other = some q ∧ (g.entry q).channelId = k := by
    rcases hbase with hroom | ⟨-, hempty⟩
    · exact (h.member hroom hq).resolve_left id
    · rw [hempty other] at hq
      cases hq
  have hmine : keep base.members (g.entry r).sessionId r (g.entry r).sessionId = some r := by
    cases hlook : base.members (g.entry r).sessionId with
    | none => exact keep_self hlook
    | some q =>
        have hq := (hmember hlook).1
        rw [hclient] at hq
        cases hq
        exact keep_mono hlook
  constructor
  · intro k' room other q hroom hq
    by_cases hk : k' = k
    · subst hk
      rw [hself] at hroom
      cases hroom
      rcases of_keep hq with hq | ⟨rfl, rfl⟩
      · obtain ⟨hlook, hchannel⟩ := hmember hq
        refine .inr ⟨hlook, ?_⟩
        by_cases hqr : q = r
        · subst hqr
          exact hmoved
        · rw [entered_entry_ne hqr]
          exact hchannel
      · exact .inr ⟨hclient, hmoved⟩
    · rw [entered_channels_ne hk] at hroom
      obtain ⟨hlook, hchannel⟩ := (h.member hroom hq).resolve_left id
      by_cases hqr : q = r
      · subst hqr
        exact .inl ⟨hk, (hindexed.connected hlook).2.symm, hchannel.symm⟩
      · rw [entered_entry_ne hqr]
        exact .inr ⟨hlook, hchannel⟩
  · intro other q hlook hne
    by_cases hqr : q = r
    · subst hqr
      have hother : (g.entry q).sessionId = other := (hindexed.connected hlook).2
      rw [hmoved, ← hother]
      exact ⟨_, hself, hmine⟩
    · rw [entered_entry_ne hqr] at hne ⊢
      obtain ⟨room, hroom, hq⟩ := h.placed hlook hne
      by_cases hk : (g.entry q).channelId = k
      · rw [hk] at hroom ⊢
        rcases hbase with hold | ⟨hnone, -⟩
        · rw [hold] at hroom
          cases hroom
          exact ⟨_, hself, keep_mono hq⟩
        · rw [hnone] at hroom
          cases hroom
      · exact ⟨room, (entered_channels_ne hk).trans hroom, hq⟩
  · intro k' room hroom htemporary
    by_cases hk : k' = k
    · subst hk
      rw [hself] at hroom
      cases hroom
      exact ⟨_, r, hmine⟩
    · rw [entered_channels_ne hk] at hroom
      exact h.occupied hroom htemporary
  · obtain ⟨room, hroom, htemporary⟩ := h.root
    by_cases hk : k = 0
    · subst hk
      rcases hbase with hold | ⟨hnone, -⟩
      · rw [hold] at hroom
        cases hroom
        exact ⟨_, hself, htemporary⟩
      · rw [hnone] at hroom
        cases hroom
    · exact ⟨room, (entered_channels_ne (Ne.symm hk)).trans hroom, htemporary⟩

theorem join (h : g.Membership) (hindexed : g.Indexed) (hrun : g.Running r) :
    ((g.create k).join r k).Membership := by
  have hentered := h.enter (k := k) hindexed hrun
  have hjoin : (g.create k).join r k = if (g.entry r).channelId = k then g.entered r k
      else (g.entered r k).leave (g.entry r).sessionId (g.entry r).channelId := rfl
  rw [hjoin]
  split_ifs with hk
  · -- it was there before, so nothing is stale
    refine ⟨?_, hentered.placed, hentered.occupied, hentered.root⟩
    intro k' room other q hroom hq
    exact .inr ((hentered.member hroom hq).resolve_left
      fun hstale => hstale.1 (hstale.2.2.trans hk))
  · refine Consistent.leave ⟨?_, hentered.placed, hentered.occupied, hentered.root⟩ ?_
    · intro k' room other q hroom hq
      exact (hentered.member hroom hq).imp_left fun hstale => hstale.2
    · intro q hq
      have hlook : g.clients (g.entry r).sessionId = some q := hq
      rw [hindexed.running hrun] at hlook
      cases hlook
      rw [entered_entry_self]
      exact Ne.symm hk

theorem drop (h : g.Membership) (session : UInt32) :
    (g.drop session).Membership := by
  cases hlook : g.clients session with
  | none =>
      rw [drop_none hlook]
      exact h
  | some r =>
      have hentry (q : ClientRef) :
          ((g.detach r session).entry q).channelId = (g.entry q).channelId :=
        setEntry_field (f := fun e => { e with cancelled := true, udpSocketAddr := none })
          (fun e => e.channelId) (fun _ => rfl) q
      rw [drop_some hlook]
      apply Consistent.leave
      · constructor
        · intro k room other q hroom hq
          obtain ⟨hclient, hchannel⟩ := (h.member hroom hq).resolve_left id
          by_cases hother : other = session
          · subst hother
            rw [hlook] at hclient
            cases hclient
            exact .inl ⟨rfl, hchannel.symm⟩
          · rw [hentry]
            exact .inr ⟨erase_eq_some.mpr ⟨hother, hclient⟩, hchannel⟩
        · intro other q hq hne
          rw [hentry] at hne ⊢
          exact h.placed (erase_eq_some.mp hq).2 hne
        · exact h.occupied
        · exact h.root
      · intro q hq
        exact absurd rfl (erase_eq_some.mp hq).1

theorem add (h : g.Membership) (hindexed : g.Indexed) (session : UInt32) :
    (g.add session).Membership := by
  have hold {other : UInt32} {q : ClientRef} (hq : g.clients other = some q) :
      (g.add session).entry q = g.entry q :=
    Function.update_of_ne (Nat.ne_of_lt (hindexed.connected hq).1.1) _ _
  constructor
  · intro k room other q hroom hq
    obtain ⟨hclient, hchannel⟩ := (h.member hroom hq).resolve_left id
    rw [hold hclient]
    exact .inr ⟨keep_mono hclient, hchannel⟩
  · intro other q hq hne
    rcases of_keep hq with hq | ⟨rfl, rfl⟩
    · rw [hold hq] at hne ⊢
      exact h.placed hq hne
    · -- a new client is recorded in the root channel
      have hnew : (g.add other).entry g.next = ⟨other, 0, false, false, false, none⟩ :=
        Function.update_self ..
      rw [hnew] at hne
      exact absurd rfl hne
  · exact h.occupied
  · exact h.root

-- A channel's listeners are written.
theorem listeners (h : g.Membership) (f : (UInt32 → Option ClientRef) → UInt32 → Option ClientRef)
    (k : UInt32) :
    (g.setRoom k fun room => some { room with listeners := f room.listeners }).Membership := by
  have hroom {k' : UInt32} {room : Room}
      (hk : (g.setRoom k fun room => some { room with listeners := f room.listeners }).channels k' =
        some room) : ∃ old, g.channels k' = some old ∧ room.temporary = old.temporary ∧
        room.members = old.members := by
    by_cases hkk : k' = k
    · subst hkk
      rw [setRoom_channels_self] at hk
      obtain ⟨old, hold, hsome⟩ := Option.bind_eq_some_iff.mp hk
      cases hsome
      exact ⟨old, hold, rfl, rfl⟩
    · rw [setRoom_channels_ne _ hkk] at hk
      exact ⟨room, hk, rfl, rfl⟩
  have hstays {k' : UInt32} {room : Room} (hk : g.channels k' = some room) :
      ∃ new, (g.setRoom k fun room =>
        some { room with listeners := f room.listeners }).channels k' = some new ∧
        new.temporary = room.temporary ∧ new.members = room.members := by
    by_cases hkk : k' = k
    · subst hkk
      rw [setRoom_channels_self, hk]
      exact ⟨_, rfl, rfl, rfl⟩
    · exact ⟨room, (setRoom_channels_ne _ hkk).trans hk, rfl, rfl⟩
  constructor
  · intro k' room session q hk hq
    obtain ⟨old, hold, -, hmembers⟩ := hroom hk
    exact h.member hold (hmembers ▸ hq)
  · intro session q hq hne
    obtain ⟨room, hold, hmember⟩ := h.placed hq hne
    obtain ⟨new, hnew, -, hmembers⟩ := hstays hold
    exact ⟨new, hnew, hmembers ▸ hmember⟩
  · intro k' room hk htemporary
    obtain ⟨old, hold, hsame, hmembers⟩ := hroom hk
    rw [hmembers]
    exact h.occupied hold (hsame ▸ htemporary)
  · obtain ⟨room, hold, htemporary⟩ := h.root
    obtain ⟨new, hnew, hsame, -⟩ := hstays hold
    exact ⟨new, hnew, hsame.trans htemporary⟩

-- Every orderly operation keeps the two records of where clients are in step.
theorem step (h : g.Membership) (hindexed : g.Indexed) (hstep : g.Step op g')
    (hop : op.Orderly) : g'.Membership := by
  obtain ⟨hguard, rfl⟩ := hstep
  cases op with
  | Add session => exact h.add hindexed session
  | SetMute r b | SetDeaf r b | Bind r addr | Unbind r =>
      exact h.of_same rfl rfl (Op.entry_field (fun e => e.channelId) fun _ => rfl)
  | Join r k alive =>
      obtain ⟨room, hroom⟩ := Option.ne_none_iff_exists'.mp hguard.2.2
      have hjoined := h.join (k := k) hindexed (hguard.2.1 hop)
      rw [create_of_some hroom] at hjoined
      exact hjoined
  | FailJoin r k => exact absurd hop id
  | Create r k alive => exact h.join hindexed (hguard.2 hop)
  | Listen r k => exact h.listeners (fun m => keep m (g.entry r).sessionId r) k
  | Unlisten r k => exact h.listeners (fun m => Function.update m (g.entry r).sessionId none) k
  | Drop session => exact h.drop session

end Consistent

end Mumble.Registry
