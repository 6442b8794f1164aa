import Mumble.Reachable

namespace Mumble

namespace Registry

variable {g g' : Registry} {r q : ClientRef} {k k' session other : UInt32} {op : Op}

-- A channel has a client under a session, as a member or as a listener.
def Holds (g : Registry) (k session : UInt32) (q : ClientRef) : Prop :=
  ∃ room, g.channels k = some room ∧ (room.members session = some q ∨ room.listeners session = some q)

-- The channels have every client under its own session.
def Keyed (g : Registry) : Prop :=
  ∀ ⦃k session q⦄, g.Holds k session q → q < g.next ∧ (g.entry q).sessionId = session

theorem of_setRoom {f : Room → Option Room} (h : (g.setRoom k f).Holds k' session q) :
    g.Holds k' session q ∨ ∃ room room', g.channels k = some room ∧ f room = some room' ∧
      k' = k ∧ (room'.members session = some q ∨ room'.listeners session = some q) := by
  obtain ⟨room', hroom', hentry⟩ := h
  by_cases hk : k' = k
  · subst hk
    rw [setRoom_channels_self] at hroom'
    obtain ⟨room, hroom, hf⟩ := Option.bind_eq_some_iff.mp hroom'
    exact .inr ⟨room, room', hroom, hf, rfl, hentry⟩
  · rw [setRoom_channels_ne f hk] at hroom'
    exact .inl ⟨room', hroom', hentry⟩

theorem of_enter (h : (g.enter r k).Holds k' session q) :
    g.Holds k' session q ∨ q = r ∧ session = (g.entry r).sessionId := by
  rcases of_setRoom h with h | ⟨room, room', hroom, hf, rfl, hentry⟩
  · exact .inl h
  · cases hf
    rcases hentry with hmember | hlistener
    · rcases of_keep hmember with hmember | ⟨hsession, hq⟩
      · exact .inl ⟨room, hroom, .inl hmember⟩
      · exact .inr ⟨hq, hsession⟩
    · exact .inl ⟨room, hroom, .inr hlistener⟩

theorem holds_of_leave (h : (g.leave other k).Holds k' session q) : g.Holds k' session q := by
  rcases of_setRoom h with h | ⟨room, room', hroom, hf, rfl, hentry⟩
  · exact h
  · dsimp only at hf
    split_ifs at hf
    cases hf
    rcases hentry with hmember | hlistener
    · exact ⟨room, hroom, .inl (erase_eq_some.mp hmember).2⟩
    · exact ⟨room, hroom, .inr hlistener⟩

theorem of_join (h : (g.join r k).Holds k' session q) :
    g.Holds k' session q ∨ q = r ∧ session = (g.entry r).sessionId := by
  let placed := g.setEntry r fun e => { e with channelId := k }
  have hentered : (placed.enter r k).Holds k' session q := by
    unfold join at h
    dsimp only at h
    split_ifs at h
    · exact h
    · exact holds_of_leave h
  have hsession : (placed.entry r).sessionId = (g.entry r).sessionId :=
    setEntry_field (f := fun e => { e with channelId := k }) (fun e => e.sessionId) (fun _ => rfl) r
  rw [← hsession]
  exact of_enter hentered

theorem holds_of_create (h : (g.create k).Holds k' session q) : g.Holds k' session q := by
  obtain ⟨room, hroom, hentry⟩ := h
  by_cases hk : k' = k
  · subst hk
    rw [create_channels_self] at hroom
    cases hlook : g.channels k' with
    | none =>
        rw [hlook] at hroom
        cases hroom
        rcases hentry with hentry | hentry <;> cases hentry
    | some old =>
        rw [hlook] at hroom
        cases hroom
        exact ⟨old, hlook, hentry⟩
  · rw [create_channels_ne hk] at hroom
    exact ⟨room, hroom, hentry⟩

theorem holds_of_drop (h : (g.drop other).Holds k session q) : g.Holds k session q := by
  cases hlook : g.clients other with
  | none => rwa [drop_none hlook] at h
  | some r =>
      rw [drop_some hlook] at h
      exact holds_of_leave h

-- What an operation puts into a channel is a client under its own session.
theorem of_apply (hguard : op.Guard g) (h : (op.apply g).Holds k session q) :
    g.Holds k session q ∨ q < g.next ∧ session = (g.entry q).sessionId := by
  cases op with
  | Join r k alive =>
      refine (of_join h).imp_right ?_
      rintro ⟨rfl, hsession⟩
      exact ⟨hguard.1, hsession⟩
  | Create r k alive =>
      rcases of_join h with h | ⟨rfl, hsession⟩
      · exact .inl (holds_of_create h)
      · exact .inr ⟨hguard.1, hsession⟩
  | Listen r k =>
      rcases of_setRoom h with h | ⟨room, room', hroom, hf, rfl, hentry⟩
      · exact .inl h
      · cases hf
        rcases hentry with hmember | hlistener
        · exact .inl ⟨room, hroom, .inl hmember⟩
        · rcases of_keep hlistener with hlistener | ⟨hsession, rfl⟩
          · exact .inl ⟨room, hroom, .inr hlistener⟩
          · exact .inr ⟨hguard, hsession⟩
  | Unlisten r k =>
      rcases of_setRoom h with h | ⟨room, room', hroom, hf, rfl, hentry⟩
      · exact .inl h
      · cases hf
        rcases hentry with hmember | hlistener
        · exact .inl ⟨room, hroom, .inl hmember⟩
        · exact .inl ⟨room, hroom, .inr (erase_eq_some.mp hlistener).2⟩
  | Drop session => exact .inl (holds_of_drop h)
  | Add session => exact .inl h
  | SetMute r mute => exact .inl h
  | SetDeaf r deaf => exact .inl h
  | FailJoin r k => exact .inl h
  | Bind r addr => exact .inl h
  | Unbind r => exact .inl h

theorem Op.keeps_sessionId (op : Op) :
    (∃ session, op = .Add session) ∨ op.Keeps fun e => e.sessionId := by
  cases op with
  | Add session => exact .inl ⟨session, rfl⟩
  | Listen r k | Unlisten r k => exact .inr trivial
  | SetMute r b | SetDeaf r b | FailJoin r k | Bind r addr | Unbind r | Join r k _ | Create r k _
  | Drop session => exact .inr fun _ => rfl

-- A client keeps the session it was given.
theorem Step.sessionId (h : g.Step op g') (hq : q < g.next) :
    (g'.entry q).sessionId = (g.entry q).sessionId := by
  obtain ⟨-, rfl⟩ := h
  rcases op.keeps_sessionId with ⟨session, rfl⟩ | hkeeps
  · have hentry : (g.add session).entry q = g.entry q :=
      Function.update_of_ne (Nat.ne_of_lt hq) _ _
    exact congrArg Entry.sessionId hentry
  · exact Op.entry_field (fun e => e.sessionId) hkeeps q

theorem Keyed.step (h : g.Keyed) (hstep : g.Step op g') : g'.Keyed := by
  intro k session q hholds
  have hknown : q < g.next ∧ (g.entry q).sessionId = session := by
    rcases of_apply hstep.1 (hstep.2 ▸ hholds) with hold | ⟨hq, hsession⟩
    · exact h hold
    · exact ⟨hq, hsession.symm⟩
  exact ⟨Nat.lt_of_lt_of_le hknown.1 hstep.next_le, (hstep.sessionId hknown.1).trans hknown.2⟩

end Registry

namespace ServerState

variable {s s' : ServerState} {l : Label}

theorem keyed_transition (hsound : s.registry.Sound) (h : s.registry.Keyed)
    (hstep : s.Transition l s') : s'.registry.Keyed :=
  (step_follows hsound.counted hstep.step).invariant (fun _ hg hop => hg.step hop) h

theorem Reachable.keyed (h : s.Reachable) : s.registry.Keyed := by
  obtain ⟨removePositionalData, anticheat, bans, labels, hrun⟩ := h
  have hboth := hrun.invariant (I := fun s => s.registry.Sound ∧ s.registry.Keyed)
    (P := fun _ => True)
    (fun _ hs hstep => ⟨sound_transition hs.1 hstep, keyed_transition hs.1 hs.2 hstep⟩)
    (fun _ _ => trivial) ⟨sound_new removePositionalData anticheat bans, ?_⟩
  · exact hboth.2
  · intro k session q hholds
    obtain ⟨room, hroom, hentry⟩ := hholds
    rw [room_new _ _ _ hroom] at hentry
    rcases hentry with hentry | hentry <;> cases hentry

end ServerState

end Mumble
