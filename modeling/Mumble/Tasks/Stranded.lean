import Mumble.Tasks.Steps
import Mumble.Reachable

namespace Mumble

open Mumble.Lib

-- The client whose loop the task is.
def Task.client : Task → Option ClientRef
  | .Client r _ _ => some r
  | _ => none

-- The clients of a server move between its channels, each in its own loop, and any
-- session may be disconnected at any time, also more than once.
def moving (s₀ : ServerState) : Tasks Shared Choice Task where
  next := Task.next
  starts p t :=
    match t with
    | .Client r _ .Load =>
        decide (s₀.clients.lookup (s₀.get r).sessionId = some r) &&
          p.tasks.all fun u => u.client ≠ some r
    | .Disconnect _ .Lookup => true
    | _ => false

namespace ServerState

def Connected (s : ServerState) (r : ClientRef) : Prop :=
  s.clients.lookup (s.get r).sessionId = some r

instance (s : ServerState) (r : ClientRef) : Decidable (s.Connected r) :=
  inferInstanceAs (Decidable (_ = _))

def Member (s : ServerState) (k sessionId : UInt32) : Prop :=
  ∃ c, s.channels.lookup k = some c ∧ sessionId ∈ c.clients

end ServerState

-- A channel is deleted only while no client is in it: none has come in since it was
-- found empty.
def deletesEmpty (p : Pool Shared Task) : Turn Choice Task → Bool
  | .Start _ => true
  | .Next place _ =>
      match p.tasks[place]?.bind Task.deletes with
      | none => true
      | some k =>
          match p.shared.state.channels.lookup k with
          | none => true
          | some c => c.clients.entries.isEmpty

section

variable {s s' : Shared} {t t' : Task} {k k' x : UInt32}

theorem ChannelMap.contains_iff {m : ChannelMap} :
    m.contains k = true ↔ ∃ c, m.lookup k = some c := Option.isSome_iff_exists

theorem ChannelMap.lookup_alterClients {m : ChannelMap} {c : Channel}
    (f : HashIndex UInt32 ClientRef → HashIndex UInt32 ClientRef) (h : m.lookup k = some c) :
    (m.alterClients k' f).lookup k =
      some (if k = k' then { c with clients := f c.clients } else c) := by
  by_cases hk : k = k'
  · subst hk
    rw [ChannelMap.alterClients, ChannelMap.lookup_alter_self, h, if_pos rfl]
    rfl
  · rw [ChannelMap.alterClients, ChannelMap.lookup_alter_ne hk, h, if_neg hk]

-- An entry that is held stays in the map.
theorem ChannelStep.contains_held (hstep : ChannelStep s s' t) (hheld : s.held k = true)
    (hthere : s.state.channels.contains k = true) : s'.state.channels.contains k = true := by
  obtain ⟨c, hc⟩ := ChannelMap.contains_iff.mp hthere
  cases hstep with
  | Same hchannels => rwa [hchannels]
  | Insert hchannels =>
      rw [hchannels]
      exact ChannelMap.contains_iff.mpr ⟨_, ChannelMap.lookup_alterClients _ hc⟩
  | Remove ht hchannels =>
      rw [hchannels]
      exact ChannelMap.contains_iff.mpr ⟨_, ChannelMap.lookup_alterClients _ hc⟩
  | @Delete _ k' ht hfree hchannels =>
      have hne : k ≠ k' := by
        rintro rfl
        exact hfree ⟨hthere, hheld⟩
      rw [hchannels]
      exact ChannelMap.contains_iff.mpr ⟨c, (ChannelMap.lookup_erase_ne hne).trans hc⟩

-- A session stays in a channel unless it is taken out or the channel is deleted.
theorem ChannelStep.member (hstep : ChannelStep s s' t) (hmember : s.state.Member k x)
    (herase : ¬t.Erases s.state x k) (hdelete : t.deletes ≠ some k) : s'.state.Member k x := by
  obtain ⟨c, hc, hx⟩ := hmember
  cases hstep with
  | Same hchannels => exact ⟨c, by rw [hchannels, hc], hx⟩
  | Insert hchannels =>
      refine ⟨_, by rw [hchannels, ChannelMap.lookup_alterClients _ hc], ?_⟩
      split_ifs
      · exact HashIndex.mem_insertNew.mpr (.inr hx)
      · exact hx
  | @Remove _ sessionId k' ht hchannels =>
      refine ⟨_, by rw [hchannels, ChannelMap.lookup_alterClients _ hc], ?_⟩
      split_ifs with hk
      · subst hk
        have hne : x ≠ sessionId := by
          rintro rfl
          exact herase ht
        exact AList.mem_erase.mpr ⟨hne, hx⟩
      · exact hx
  | @Delete _ k' ht hfree hchannels =>
      have hne : k ≠ k' := by
        rintro rfl
        exact hdelete ht
      exact ⟨c, by rw [hchannels, ChannelMap.lookup_erase_ne hne, hc], hx⟩

end

-- The client is in the channel it asked for.
def Joining.inserted : Joining → Bool
  | .Read _ => true
  | .Tell _ _ _ => true
  | .Leave _ _ => true
  | .Done (.ok ()) => true
  | _ => false

-- What each task can rely on.
def Task.Placed (s₀ s : ServerState) : Task → Prop
  | .Client r k stage =>
      s₀.clients.lookup (s₀.get r).sessionId = some r ∧
      (∀ leaveChannelId left, stage = .Leave leaveChannelId left → leaveChannelId ≠ k) ∧
      (stage.inserted = true → s.clients.lookup (s₀.get r).sessionId = some r →
        s.Member k (s₀.get r).sessionId)
  | .Disconnect x stage => stage.removed = true → x ∉ s.clients
  | .Connect _ _ => False

structure Placed (s₀ : ServerState) (p : Pool Shared Task) : Prop where
  sessionId : ∀ r, (p.shared.state.get r).sessionId = (s₀.get r).sessionId
  clients : ∀ x r, p.shared.state.clients.lookup x = some r → s₀.clients.lookup x = some r
  loops : Exclusive Task.client p.tasks
  locks : Exclusive Task.holds p.tasks
  holders : ∀ t ∈ p.tasks, ∀ k, t.holds = some k →
    p.shared.held k = true ∧ p.shared.state.channels.contains k = true
  tasks : ∀ t ∈ p.tasks, t.Placed s₀ p.shared.state

section

variable {s s' : Shared} {t t' u : Task} {before after : List Task}

-- The locks: who takes one has found it free, and nobody else gives it back.
theorem LockStep.holders (hlock : LockStep s s' t.holds t'.holds) (hstep : ChannelStep s s' t)
    (hlocks : Exclusive Task.holds (before ++ t :: after))
    (hholders : ∀ u ∈ before ++ t :: after, ∀ k, u.holds = some k →
      s.held k = true ∧ s.state.channels.contains k = true) :
    Exclusive Task.holds (before ++ t' :: after) ∧
      ∀ u ∈ before ++ t' :: after, ∀ k, u.holds = some k →
        s'.held k = true ∧ s'.state.channels.contains k = true := by
  have hkept : ∀ u ∈ before ++ t :: after, ∀ k, u.holds = some k →
      s'.state.channels.contains k = true :=
    fun u hu k hk => hstep.contains_held (hholders u hu k hk).1 (hholders u hu k hk).2
  generalize hold : t.holds = held at hlock
  generalize hnew : t'.holds = held' at hlock
  cases hlock with
  | Same hheld =>
      refine ⟨hlocks.stepped fun k hk => .inl (by rw [hold, ← hnew, hk]), ?_⟩
      refine forall_mem_stepped hholders (fun u hu hP k hk => ?_) fun k hk => ?_
      · rw [hheld]
        exact ⟨(hP k hk).1, hkept u (mem_of_mem_others hu) k hk⟩
      · have ht : t ∈ before ++ t :: after := by simp
        have hk : t.holds = some k := by rw [hold, ← hnew, hk]
        rw [hheld]
        exact ⟨(hholders t ht k hk).1, hkept t ht k hk⟩
  | @Take k hfree hthere hheld =>
      have hnone : ∀ u ∈ before ++ after, u.holds ≠ some k := by
        intro u hu hk
        rw [(hholders u (mem_of_mem_others hu) k hk).1] at hfree
        cases hfree
      refine ⟨hlocks.stepped fun k' hk' => .inr ?_, ?_⟩
      · cases hnew.symm.trans hk'
        exact hnone
      · refine forall_mem_stepped hholders (fun u hu hP k' hk' => ?_) fun k' hk' => ?_
        · have hne : k' ≠ k := by
            rintro rfl
            exact hnone u hu hk'
          rw [hheld, Function.update_of_ne hne]
          exact ⟨(hP k' hk').1, hkept u (mem_of_mem_others hu) k' hk'⟩
        · cases hnew.symm.trans hk'
          rw [hheld, Function.update_self]
          exact ⟨rfl, hthere⟩
  | @Give k hheld =>
      refine ⟨hlocks.stepped fun k' hk' => ?_, ?_⟩
      · rw [hnew] at hk'
        cases hk'
      · refine forall_mem_stepped hholders (fun u hu hP k' hk' => ?_) fun k' hk' => ?_
        · have hne : k' ≠ k := by
            rintro rfl
            exact (exclusive_append.mp hlocks).1 k' hold u hu hk'
          rw [hheld, Function.update_of_ne hne]
          exact ⟨(hP k' hk').1, hkept u (mem_of_mem_others hu) k' hk'⟩
        · rw [hnew] at hk'
          cases hk'

-- Nobody is connected by a step, and session ids stay.
structure Shrinks (s s' : ServerState) : Prop where
  sessionId : ∀ r, (s'.get r).sessionId = (s.get r).sessionId
  clients : ∀ x r, s'.clients.lookup x = some r → s.clients.lookup x = some r

theorem ServerState.SameClients.shrinks {s s' : ServerState} (h : s.SameClients s') :
    Shrinks s s' := ⟨h.sessionId, fun x r hx => by rwa [h.clients] at hx⟩

theorem Shrinks.notMem {s s' : ServerState} (h : Shrinks s s') {x : UInt32} (hx : x ∉ s.clients) :
    x ∉ s'.clients := by
  intro hx'
  obtain ⟨r, hr⟩ := HashIndex.mem_iff_lookup.mp hx'
  exact hx (HashIndex.mem_iff_lookup.mpr ⟨r, h.clients x r hr⟩)

theorem shrinks_erase (s : ServerState) (x : UInt32) :
    Shrinks s { s with clients := s.clients.erase x } :=
  ⟨fun _ => rfl, fun _ _ hr => (HashIndex.lookup_erase_eq_some.mp hr).2⟩

theorem DisconnectStep.shrinks {x : UInt32} {s s' : ServerState} {stage stage' : Disconnecting}
    (h : DisconnectStep x s s' stage stage') : Shrinks s s' := by
  cases h with
  | Found _ hsame => exact hsame.shrinks
  | Absent _ hsame => exact hsame.shrinks
  | Alive hsame => exact hsame.shrinks
  | Dead _ hsame => exact hsame.shrinks
  | Removed _ heq => exact heq ▸ shrinks_erase s x
  | Unclaimed _ heq => exact heq ▸ shrinks_erase s x
  | Gone _ hsame => exact hsame.shrinks
  | Counted heq => exact heq ▸ ⟨fun _ => rfl, fun _ _ hx => hx⟩
  | On _ _ _ hsame => exact hsame.shrinks

-- A call that has taken its client out of the map never sees it again.
theorem DisconnectStep.placed {x : UInt32} {s s' : ServerState} {stage stage' : Disconnecting}
    (h : DisconnectStep x s s' stage stage') (hplaced : stage.removed = true → x ∉ s.clients) :
    stage'.removed = true → x ∉ s'.clients := by
  intro hremoved
  cases h with
  | Found => cases hremoved
  | Absent => cases hremoved
  | Alive => cases hremoved
  | Dead => cases hremoved
  | Removed _ heq =>
      rw [heq]
      exact fun hmem => (AList.mem_erase.mp hmem).1 rfl
  | Unclaimed => cases hremoved
  | Gone => cases hremoved
  | Counted heq =>
      rw [heq]
      exact hplaced rfl
  | On hwas _ _ hsame => exact hsame.shrinks.notMem (hplaced hwas)

theorem Joining.next_inserted {r : ClientRef} {k : UInt32} {s s' : Shared} {choice : Choice}
    {stage stage' : Joining} (h : stage.next r k s choice = some (s', stage'))
    (hinserted : stage'.inserted = true) :
    stage.inserted = true ∨ ∃ leave, stage = .Insert leave := by
  cases stage with
  | Load =>
      cases h
      split_ifs at hinserted <;> cases hinserted
  | Store current =>
      cases h
      cases hinserted
  | Find leave =>
      simp only [Joining.next] at h
      split at h
      · split_ifs at h
        cases h
        cases hinserted
      · cases h
        cases hinserted
  | Insert leave => exact .inr ⟨leave, rfl⟩
  | Read leave => exact .inl rfl
  | Tell leave userState stage => exact .inl rfl
  | Leave leaveChannelId stage => exact .inl rfl
  | Done result => cases h

theorem Joining.next_leave {r : ClientRef} {k : UInt32} {s s' : Shared} {choice : Choice}
    {stage stage' : Joining} (h : stage.next r k s choice = some (s', stage'))
    (hleave : ∀ leaveChannelId left, stage = .Leave leaveChannelId left → leaveChannelId ≠ k) :
    ∀ leaveChannelId left, stage' = .Leave leaveChannelId left → leaveChannelId ≠ k := by
  rintro leaveChannelId left rfl
  cases stage with
  | Load =>
      simp only [Joining.next, Option.some.injEq, Prod.mk.injEq] at h
      obtain ⟨-, h⟩ := h
      split_ifs at h
  | Store current => cases h
  | Find leave =>
      simp only [Joining.next] at h
      split at h
      · split_ifs at h
        cases h
      · cases h
  | Insert leave => cases h
  | Read leave => cases h
  | Tell leave userState stage =>
      obtain ⟨⟨next, told⟩, hnext, heq⟩ := Option.map_eq_some_iff.mp h
      cases told with
      | some stage => cases heq
      | none =>
          simp only [afterTell, Prod.mk.injEq] at heq
          obtain ⟨-, heq⟩ := heq
          split at heq
          · cases heq
          · split_ifs at heq with hne
            cases heq
            exact hne
  | Leave leaveChannelId' stage =>
      obtain ⟨⟨next, left'⟩, hnext, heq⟩ := Option.map_eq_some_iff.mp h
      cases left' with
      | none => cases heq
      | some stage' =>
          cases heq
          exact hleave leaveChannelId stage rfl
  | Done result => cases h

-- What a step of a moving client or of a disconnect does.
theorem Task.next_spec {choice : Choice} (h : t.next s choice = some (s', t'))
    (hconnect : ∀ newcomer stage, t ≠ .Connect newcomer stage) :
    Shrinks s.state s'.state ∧ ChannelStep s s' t ∧ LockStep s s' t.holds t'.holds ∧
      t'.client = t.client := by
  cases t with
  | Client r k stage =>
      rcases next_client h with ⟨result, k', rfl, rfl, rfl⟩ | ⟨stage', hnext, rfl⟩
      · exact ⟨⟨fun _ => rfl, fun _ _ hx => hx⟩, .Same rfl, .Same rfl, rfl⟩
      · obtain ⟨hsame, hchannels, hlock, -⟩ := Joining.next_spec hnext
        exact ⟨hsame.shrinks, hchannels, hlock, rfl⟩
  | Disconnect x stage =>
      obtain ⟨stage', hnext, rfl⟩ := next_disconnect h
      obtain ⟨hdisconnect, hchannels, hlock, -⟩ := Disconnecting.next_spec hnext
      exact ⟨hdisconnect.shrinks, hchannels, hlock, rfl⟩
  | Connect newcomer stage => exact absurd rfl (hconnect newcomer stage)

variable {s₀ : ServerState}

-- The other tasks do not disturb a client that is in its channel.
theorem placed_others (hplaced : Placed s₀ ⟨s, before ++ t :: after⟩)
    (hu : u ∈ before ++ after) (hshrinks : Shrinks s.state s'.state)
    (hchannels : ChannelStep s s' t)
    (hok : ∀ k c, t.deletes = some k → s.state.channels.lookup k = some c → c.clients.entries = []) :
    u.Placed s₀ s.state → u.Placed s₀ s'.state := by
  intro hP
  cases u with
  | Client r k stage =>
      obtain ⟨hknown, hleave, hmember⟩ := hP
      refine ⟨hknown, hleave, fun hinserted hconnected => ?_⟩
      have hconnected := hshrinks.clients _ _ hconnected
      have hmember := hmember hinserted hconnected
      refine hchannels.member hmember (fun herases => ?_) fun hdeletes => ?_
      · -- another client has another session, and a disconnected one is gone
        have ht := hplaced.tasks t (by simp)
        cases t with
        | Client r' k' stage' =>
            have hsession : (s₀.get r').sessionId = (s₀.get r).sessionId := by
              cases stage' with
              | Leave leaveChannelId left =>
                  cases left with
                  | Remove => exact (hplaced.sessionId r').symm.trans herases.1
                  | _ => cases herases
              | _ => cases herases
            have hsame : some r' = some r := by
              rw [← ht.1, hsession, hknown]
            exact (exclusive_append.mp hplaced.loops).1 r' rfl _ hu hsame.symm
        | Disconnect x stage' =>
            have hx : stage'.removed = true ∧ x = (s₀.get r).sessionId := by
              cases stage' with
              | Leave leaveChannelId left =>
                  cases left with
                  | Remove => exact ⟨rfl, herases.1⟩
                  | _ => cases herases
              | Retain channelId => exact ⟨rfl, herases.1⟩
              | _ => cases herases
            refine ht hx.1 ?_
            rw [hx.2]
            exact HashIndex.mem_iff_lookup.mpr ⟨r, hconnected⟩
        | Connect newcomer stage' => cases herases
      · obtain ⟨c, hc, hin⟩ := hmember
        exact HashIndex.entries_eq_nil_iff.mp (hok k c hdeletes hc) _ hin
  | Disconnect x stage => exact fun hremoved => hshrinks.notMem (hP hremoved)
  | Connect newcomer stage => exact hP

-- The client is in the channel once it is inserted, and its own way out of the old
-- channel does not touch the new one.
theorem placed_client {r : ClientRef} {k : UInt32} {stage stage' : Joining} {choice : Choice}
    (hplaced : Placed s₀ ⟨s, before ++ .Client r k stage :: after⟩)
    (hnext : stage.next r k s choice = some (s', stage')) :
    (Task.Client r k stage').Placed s₀ s'.state := by
  obtain ⟨hknown, hleave, hmember⟩ := hplaced.tasks (.Client r k stage) (by simp)
  obtain ⟨hsame, hchannels, -⟩ := Joining.next_spec hnext
  refine ⟨hknown, Joining.next_leave hnext hleave, fun hinserted hconnected => ?_⟩
  have hconnected := hsame.shrinks.clients _ _ hconnected
  rcases Joining.next_inserted hnext hinserted with hwas | ⟨leave, rfl⟩
  · refine hchannels.member (hmember hwas hconnected) ?_ ?_
    · intro herases
      cases stage with
      | Leave leaveChannelId left =>
          cases left with
          | Remove => exact hleave leaveChannelId .Remove rfl herases.2
          | _ => cases herases
      | _ => cases herases
    · intro hdeletes
      cases stage with
      | Leave leaveChannelId left =>
          cases left with
          | Delete => exact hleave leaveChannelId .Delete rfl (Option.some.inj hdeletes)
          | _ => cases hdeletes
      | _ => cases hdeletes
  · cases hnext
    obtain ⟨-, hthere⟩ := hplaced.holders (.Client r k (.Insert leave)) (by simp) k rfl
    obtain ⟨c, hc⟩ := ChannelMap.contains_iff.mp hthere
    refine ⟨_, ChannelMap.lookup_alterClients _ hc, ?_⟩
    rw [if_pos rfl, ← hplaced.sessionId r]
    exact HashIndex.mem_insertNew.mpr (.inl rfl)

theorem Placed.start (h : Placed s₀ ⟨s, before⟩)
    (hstarts : (moving s₀).starts ⟨s, before⟩ t = true) : Placed s₀ ⟨s, before ++ [t]⟩ := by
  have hnew : t.holds = none ∧ t.Placed s₀ s.state ∧
      ∀ r, t.client = some r → ∀ u ∈ before, u.client ≠ some r := by
    cases t with
    | Client r k stage =>
        cases stage with
        | Load =>
            simp only [moving, Bool.and_eq_true, decide_eq_true_eq, List.all_eq_true] at hstarts
            refine ⟨rfl, ⟨hstarts.1, fun _ _ h => (by cases h), fun h => (by cases h)⟩, ?_⟩
            rintro r' ⟨⟩ u hu
            exact hstarts.2 u hu
        | _ => cases hstarts
    | Disconnect x stage =>
        cases stage with
        | Lookup => exact ⟨rfl, fun h => (by cases h), fun r h => by cases h⟩
        | _ => cases hstarts
    | Connect newcomer stage => cases hstarts
  obtain ⟨hholds, hplaced, hclient⟩ := hnew
  refine ⟨h.sessionId, h.clients, h.loops.started hclient, h.locks.started ?_,
    forall_mem_started h.holders ?_, forall_mem_started h.tasks hplaced⟩
  · intro k hk
    rw [hholds] at hk
    cases hk
  · intro k hk
    rw [hholds] at hk
    cases hk

theorem Placed.next {choice : Choice} (h : Placed s₀ ⟨s, before ++ t :: after⟩)
    (hnext : t.next s choice = some (s', t'))
    (hok : ∀ k c, t.deletes = some k → s.state.channels.lookup k = some c → c.clients.entries = []) :
    Placed s₀ ⟨s', before ++ t' :: after⟩ := by
  have ht := h.tasks t (by simp)
  have hconnect : ∀ newcomer stage, t ≠ .Connect newcomer stage := by
    rintro newcomer stage rfl
    exact ht
  obtain ⟨hshrinks, hchannels, hlock, hclient⟩ := Task.next_spec hnext hconnect
  obtain ⟨hlocks, hholders⟩ := hlock.holders hchannels h.locks h.holders
  refine ⟨fun r => (hshrinks.sessionId r).trans (h.sessionId r),
    fun x r hx => h.clients x r (hshrinks.clients x r hx),
    h.loops.stepped fun r hr => .inl (hclient ▸ hr), hlocks, hholders,
    forall_mem_stepped h.tasks
      (fun u hu => placed_others h hu hshrinks hchannels hok) ?_⟩
  cases t with
  | Client r k stage =>
      rcases Task.next_client hnext with ⟨result, k', rfl, rfl, rfl⟩ | ⟨stage', hstage, rfl⟩
      · exact ⟨ht.1, fun _ _ h => (by cases h), fun h => (by cases h)⟩
      · exact placed_client h hstage
  | Disconnect x stage =>
      obtain ⟨stage', hstage, rfl⟩ := Task.next_disconnect hnext
      exact (Disconnecting.next_spec hstage).1.placed ht
  | Connect newcomer stage => exact absurd rfl (hconnect newcomer stage)

end

theorem placed_idle (s₀ : ServerState) : Placed s₀ s₀.idle where
  sessionId _ := rfl
  clients _ _ h := h
  loops := List.nodup_nil
  locks := List.nodup_nil
  holders := by simp [ServerState.idle]
  tasks := by simp [ServerState.idle]

theorem placed_run {s₀ : ServerState} {p : Pool Shared Task} {turns : List (Turn Choice Task)}
    (hrun : Run ((moving s₀).StepIf deletesEmpty) s₀.idle turns p) : Placed s₀ p := by
  refine Tasks.invariant (I := Placed s₀) ?_ ?_ hrun (placed_idle s₀)
  · intro s tasks t h hstarts _
    exact h.start hstarts
  · intro s before t after choice s' t' h hnext hok
    refine h.next hnext fun k c hdeletes hc => ?_
    simpa [deletesEmpty, hdeletes, hc] using hok

-- A client whose move has returned without an error, and that has not begun
-- another one, is in a channel that exists.
theorem channel_of_joined {s₀ : ServerState} {p : Pool Shared Task}
    {turns : List (Turn Choice Task)}
    (hrun : Run ((moving s₀).StepIf deletesEmpty) s₀.idle turns p) {r : ClientRef} {k : UInt32}
    (hdone : .Client r k (.Done (.ok ())) ∈ p.tasks) (hconnected : p.shared.state.Connected r) :
    ∃ c, p.shared.state.channels.lookup k = some c := by
  have hplaced := placed_run hrun
  rw [ServerState.Connected, hplaced.sessionId r] at hconnected
  obtain ⟨c, hc, -⟩ := (hplaced.tasks _ hdone).2.2 rfl hconnected
  exact ⟨c, hc⟩

-- Two clients and a temporary channel with the first one in it.

def denServer : ServerState :=
  ServerState.sampleServer.afterAll (ServerState.sampleClients ++
    [(0, .Tcp 0 (.ChannelState ⟨none, some 0, some "den", none, some true, none⟩))])

-- Everybody is told.
def tellBoth : List Choice := [.Visit 0, .Go, .Visit 1, .Go, .Stop]

-- The choices of a client on its way into a channel, up to the moment it is about
-- to take itself out of the old one.
def enterChannel : List Choice := List.replicate 5 .Go ++ tellBoth

def Task.joined (r : ClientRef) (k : UInt32) : Task → Bool
  | .Client r' k' (.Done (.ok ())) => r' = r && k' = k
  | _ => false

theorem Task.joined_iff {r : ClientRef} {k : UInt32} {t : Task} :
    t.joined r k = true ↔ t = .Client r k (.Done (.ok ())) := by
  constructor
  · intro h
    unfold Task.joined at h
    split at h
    · simp only [Bool.and_eq_true, decide_eq_true_eq] at h
      rw [h.1, h.2]
    · cases h
  · rintro rfl
    simp [Task.joined]

-- The second client comes into the den after the first one has found it empty and
-- before it deletes it.
def strandedTurns : List (Turn Choice Task) :=
  [.Start (.Client 0 0 .Load), .Start (.Client 1 1 .Load)] ++
    turnsOf 0 (enterChannel ++ List.replicate 3 .Go) ++
    turnsOf 1 (enterChannel ++ List.replicate 3 .Go) ++
    turnsOf 0 (.Go :: tellBoth)

theorem joined_channel_deleted :
    ∃ p, Run (moving denServer).Step denServer.idle strandedTurns p ∧
      p.tasks.all Task.finished = true ∧ .Client 1 1 (.Done (.ok ())) ∈ p.tasks ∧
      p.shared.state.Connected 1 ∧ p.shared.state.channels.lookup 1 = none := by
  have hplay : ((denServer.idle.play (moving denServer) (fun _ _ => true) strandedTurns).any
      fun p => p.tasks.all Task.finished && p.tasks.any (·.joined 1 1) &&
        decide (p.shared.state.Connected 1) && !p.shared.state.channels.contains 1) = true := by
    decide +kernel
  obtain ⟨p, hrun, hseen⟩ := Pool.exists_run hplay
  simp only [Bool.and_eq_true, List.any_eq_true, Task.joined_iff] at hseen
  obtain ⟨⟨⟨hfinished, t, ht, rfl⟩, hconnected⟩, hgone⟩ := hseen
  refine ⟨p, Tasks.run_step hrun, hfinished, ht, of_decide_eq_true hconnected, ?_⟩
  simpa [ChannelMap.contains] using hgone

-- Had the first client deleted the den at once, the second one would have been
-- told that it does not exist; here it comes before the first one looks.
def companyTurns : List (Turn Choice Task) :=
  [.Start (.Client 0 0 .Load), .Start (.Client 1 1 .Load)] ++
    turnsOf 0 enterChannel ++ turnsOf 1 (enterChannel ++ List.replicate 3 .Go) ++
    turnsOf 0 (List.replicate 3 .Go)

theorem channel_of_joined_company :
    ∃ p, Run ((moving denServer).StepIf deletesEmpty) denServer.idle companyTurns p ∧
      .Client 1 1 (.Done (.ok ())) ∈ p.tasks ∧ p.shared.state.Connected 1 ∧
      ∃ c, p.shared.state.channels.lookup 1 = some c := by
  have hplay : ((denServer.idle.play (moving denServer) deletesEmpty companyTurns).any
      fun p => p.tasks.any (·.joined 1 1) && decide (p.shared.state.Connected 1)) = true := by
    decide +kernel
  obtain ⟨p, hrun, hseen⟩ := Pool.exists_run hplay
  simp only [Bool.and_eq_true, List.any_eq_true, Task.joined_iff] at hseen
  obtain ⟨⟨t, ht, rfl⟩, hconnected⟩ := hseen
  have hconnected := of_decide_eq_true hconnected
  exact ⟨p, hrun, ht, hconnected, channel_of_joined hrun ht hconnected⟩

end Mumble
