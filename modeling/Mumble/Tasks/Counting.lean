import Mumble.Tasks.Steps
import Mumble.Reachable

namespace Mumble

open Mumble.Lib

namespace Task

-- An `add_client` between its increment of the counter and its insertion.
def adding : Task → Bool
  | .Connect _ (.Insert _ _) => true
  | _ => false

-- A `disconnect` between its removal of the client and its decrement of the counter.
def removing : Task → Bool
  | .Disconnect _ stage => stage.removing
  | _ => false

def connects : Task → Bool
  | .Connect _ _ => true
  | _ => false

-- The increment is done.
def counted : Task → Bool
  | .Connect _ (.Insert _ _) => true
  | .Connect _ (.InsertUdp _ _) => true
  | .Connect _ (.Done _ _) => true
  | _ => false

-- The session id that was taken from the counter.
def fetched : Task → Option UInt32
  | .Connect _ (.Check sessionId) => some sessionId
  | .Connect _ (.New sessionId) => some sessionId
  | .Connect _ (.Count _ sessionId) => some sessionId
  | .Connect _ (.Insert _ sessionId) => some sessionId
  | .Connect _ (.InsertUdp _ sessionId) => some sessionId
  | .Connect _ (.Done _ sessionId) => some sessionId
  | _ => none

-- The session that was put into the map of clients.
def inserted : Task → Option UInt32
  | .Connect _ (.InsertUdp _ sessionId) => some sessionId
  | .Connect _ (.Done _ sessionId) => some sessionId
  | _ => none

-- The session that is being disconnected.
def target : Task → Option UInt32
  | .Disconnect x _ => some x
  | _ => none

end Task

-- Calls of `add_client`, and of `disconnect` for sessions that were inserted, while
-- clients move about.
def calling : Tasks Shared Choice Task where
  next := Task.next
  starts p t :=
    match t with
    | .Connect _ .Fetch => true
    | .Disconnect x .Lookup => p.tasks.any fun u => u.inserted = some x
    | .Client _ _ .Load => true
    | _ => false

-- The clients there are and those that are on the way in or out.
def tally (s : ServerState) (tasks : List Task) : Nat :=
  s.clients.entries.length + tasks.countP Task.adding + tasks.countP Task.removing

-- A call that saw its client, or saw that it was gone, is still right about it.
def Task.Sees (s : ServerState) : Task → Prop
  | .Disconnect x (.Upgrade r) => s.clients.lookup x = some r ∨ x ∉ s.clients
  | .Disconnect x (.Remove none) => x ∉ s.clients
  | _ => True

-- The session ids that were handed out are different, and the counter is past them.
structure Numbered (p : Pool Shared Task) : Prop where
  ids : Exclusive Task.fetched p.tasks
  sessionCount : p.shared.state.sessionCount =
    UInt32.ofNat (1 + p.tasks.countP fun t => t.fetched.isSome)
  below : ∀ t ∈ p.tasks, ∀ id, t.fetched = some id →
    id.toNat ≤ p.tasks.countP fun t => t.fetched.isSome

-- Who is in the map was put there by a call, and who is disconnected too.
structure Known (p : Pool Shared Task) : Prop where
  clients : ∀ x ∈ p.shared.state.clients, ∃ t ∈ p.tasks, t.inserted = some x
  targets : ∀ t ∈ p.tasks, ∀ x, t.target = some x → ∃ u ∈ p.tasks, u.inserted = some x
  sees : ∀ t ∈ p.tasks, t.Sees p.shared.state

structure Balanced (p : Pool Shared Task) : Prop where
  active : p.shared.state.activeClients = UInt32.ofNat (tally p.shared.state p.tasks)
  bound : tally p.shared.state p.tasks ≤ p.tasks.countP Task.counted

section

variable {s s' : Shared} {t t' : Task} {before after : List Task} {n m : Nat}

theorem Numbered.same (h : Numbered ⟨s, before ++ t :: after⟩) (ht : t'.fetched = t.fetched)
    (hcount : s'.state.sessionCount = s.state.sessionCount) :
    Numbered ⟨s', before ++ t' :: after⟩ := by
  have hsame : (before ++ t' :: after).countP (fun t => t.fetched.isSome) =
      (before ++ t :: after).countP fun t => t.fetched.isSome := by
    rw [countP_place, countP_place, ht]
  refine ⟨h.ids.stepped fun id hid => .inl (ht ▸ hid), ?_, ?_⟩
  · rw [hcount, hsame]
    exact h.sessionCount
  · rw [hsame]
    exact forall_mem_stepped h.below (fun _ _ hu => hu) fun id hid =>
      h.below t (by simp) id (ht ▸ hid)

theorem Task.connects_of_fetched (h : t.fetched.isSome = true) : t.connects = true := by
  unfold Task.fetched at h
  split at h
  all_goals first | rfl | cases h

-- With fewer than 2^32 calls the counter does not come around, so it gives an id
-- that nobody has.
theorem Numbered.fetch (h : Numbered ⟨s, before ++ t :: after⟩) (ht : t.fetched = none)
    (hconnects : t.connects = true) (ht' : t'.fetched = some s.state.sessionCount)
    (hcount : s'.state.sessionCount = s.state.sessionCount + 1)
    (hfew : (before ++ t :: after).countP Task.connects < 2 ^ 32) :
    Numbered ⟨s', before ++ t' :: after⟩ := by
  obtain ⟨hids, hold, hbelow⟩ := h
  obtain ⟨m, hm⟩ : ∃ m, (before ++ after).countP (fun t => t.fetched.isSome) = m := ⟨_, rfl⟩
  have hwas : (before ++ t :: after).countP (fun t => t.fetched.isSome) = m := by
    rw [countP_place, hm, ht]
    rfl
  have his : (before ++ t' :: after).countP (fun t => t.fetched.isSome) = m + 1 := by
    rw [countP_place, hm, ht']
    rfl
  have hsmall : 1 + m < 2 ^ 32 := by
    have hle := List.countP_mono_left (l := before ++ after)
      fun t _ ht => Task.connects_of_fetched (t := t) ht
    rw [countP_place, hconnects, if_pos rfl] at hfew
    omega
  simp only [hwas] at hold hbelow
  have hid : s.state.sessionCount.toNat = 1 + m := by
    rw [hold, UInt32.toNat_ofNat']
    exact Nat.mod_eq_of_lt hsmall
  refine ⟨hids.stepped fun id hnew => .inr fun u hu hfetched => ?_, ?_, ?_⟩
  · have hsame : s.state.sessionCount = id := Option.some.inj (ht'.symm.trans hnew)
    have hle := hbelow u (mem_of_mem_others hu) id hfetched
    rw [← hsame] at hle
    omega
  · rw [his, hcount, hold, ← Nat.add_assoc]
    exact (UInt32.ofNat_add (1 + m) 1).symm
  · rw [his]
    refine forall_mem_stepped hbelow (fun u _ hu id hfetched => ?_) fun id hnew => ?_
    · have := hu id hfetched
      omega
    · have hsame : s.state.sessionCount = id := Option.some.inj (ht'.symm.trans hnew)
      rw [← hsame]
      omega

theorem exists_inserted {x : UInt32} (h : ∃ u ∈ before ++ t :: after, u.inserted = some x)
    (ht : ∀ x, t.inserted = some x → t'.inserted = some x) :
    ∃ u ∈ before ++ t' :: after, u.inserted = some x := by
  obtain ⟨u, hu, hinserted⟩ := h
  rcases List.mem_append.mp hu with hbefore | hrest
  · exact ⟨u, List.mem_append_left _ hbefore, hinserted⟩
  · rcases List.mem_cons.mp hrest with rfl | hafter
    · exact ⟨t', by simp, ht x hinserted⟩
    · exact ⟨u, List.mem_append_right _ (List.mem_cons_of_mem _ hafter), hinserted⟩

theorem Known.step (h : Known ⟨s, before ++ t :: after⟩)
    (hinserted : ∀ x, t.inserted = some x → t'.inserted = some x)
    (htarget : t'.target = t.target)
    (hclients : ∀ x ∈ s'.state.clients, x ∈ s.state.clients ∨ t'.inserted = some x)
    (hothers : ∀ u ∈ before ++ after, u.Sees s.state → u.Sees s'.state)
    (hsees : t'.Sees s'.state) : Known ⟨s', before ++ t' :: after⟩ := by
  refine ⟨fun x hx => ?_, ?_, forall_mem_stepped h.sees hothers hsees⟩
  · rcases hclients x hx with hwas | hnew
    · exact exists_inserted (h.clients x hwas) hinserted
    · exact ⟨t', by simp, hnew⟩
  · refine forall_mem_stepped h.targets (fun u _ hu x hx => ?_) fun x hx => ?_
    · exact exists_inserted (hu x hx) hinserted
    · exact exists_inserted (h.targets t (by simp) x (htarget ▸ hx)) hinserted

-- A step that leaves the map of clients alone.
theorem Known.same (h : Known ⟨s, before ++ t :: after⟩)
    (hinserted : ∀ x, t.inserted = some x → t'.inserted = some x)
    (htarget : t'.target = t.target) (hclients : s'.state.clients = s.state.clients)
    (hsees : t'.Sees s'.state) : Known ⟨s', before ++ t' :: after⟩ := by
  refine h.step hinserted htarget (fun x hx => .inl (hclients ▸ hx)) (fun u _ hu => ?_) hsees
  unfold Task.Sees at hu ⊢
  rw [hclients]
  exact hu

theorem Task.fetched_of_inserted {x : UInt32} (h : t.inserted = some x) : t.fetched = some x := by
  unfold Task.inserted at h
  split at h
  · exact h
  · exact h
  · cases h

-- A session that was inserted is not one that is only fetched.
theorem Numbered.ne_fetched (h : Numbered ⟨s, before ++ t :: after⟩) {x id : UInt32}
    (hid : t.fetched = some id) (hnot : t.inserted = none)
    (hx : ∃ u ∈ before ++ t :: after, u.inserted = some x) : x ≠ id := by
  rintro rfl
  obtain ⟨u, hu, hinserted⟩ := hx
  have hfree := (exclusive_append.mp h.ids).1 x hid
  have hfetched := Task.fetched_of_inserted hinserted
  rcases List.mem_append.mp hu with hbefore | hrest
  · exact hfree u (List.mem_append_left _ hbefore) hfetched
  · rcases List.mem_cons.mp hrest with rfl | hafter
    · rw [hnot] at hinserted
      cases hinserted
    · exact hfree u (List.mem_append_right _ hafter) hfetched

-- What a task adds to the tally.
def Task.weight (t : Task) : Nat := (if t.adding then 1 else 0) + if t.removing then 1 else 0

theorem tally_place (s : ServerState) (before : List Task) (t : Task) (after : List Task) :
    tally s (before ++ t :: after) = tally s (before ++ after) + t.weight := by
  simp only [tally, countP_place Task.adding, countP_place Task.removing, Task.weight]
  omega

theorem tally_length (s s' : ServerState) (tasks : List Task) :
    tally s' tasks + s.clients.entries.length = tally s tasks + s'.clients.entries.length := by
  unfold tally
  omega

-- The tally after a step, from what the step does to the map and to its task.
theorem tally_stepped (h : s'.state.clients.entries.length + t'.weight + n =
    s.state.clients.entries.length + t.weight + m) (before after : List Task) :
    tally s'.state (before ++ t' :: after) + n = tally s.state (before ++ t :: after) + m := by
  have hlength := tally_length s.state s'.state (before ++ after)
  rw [tally_place, tally_place]
  omega

theorem Balanced.same (h : Balanced ⟨s, before ++ t :: after⟩)
    (hactive : s'.state.activeClients = s.state.activeClients)
    (hweight : s'.state.clients.entries.length + t'.weight =
      s.state.clients.entries.length + t.weight)
    (hcounted : t.counted = true → t'.counted = true) :
    Balanced ⟨s', before ++ t' :: after⟩ := by
  have htally := tally_stepped (n := 0) (m := 0) hweight before after
  refine ⟨?_, ?_⟩
  · rw [hactive, h.active]
    exact congrArg UInt32.ofNat htally.symm
  · have hbound := h.bound
    have hle := countP_le_stepped hcounted before after
    simp only at hbound ⊢
    omega

theorem Balanced.up (h : Balanced ⟨s, before ++ t :: after⟩)
    (hactive : s'.state.activeClients = s.state.activeClients + 1)
    (hweight : s'.state.clients.entries.length + t'.weight =
      s.state.clients.entries.length + t.weight + 1)
    (hcounted : t.counted = false) (hcounted' : t'.counted = true) :
    Balanced ⟨s', before ++ t' :: after⟩ := by
  have htally := tally_stepped (n := 0) (m := 1) hweight before after
  refine ⟨?_, ?_⟩
  · rw [hactive, h.active]
    simp only [Nat.add_zero] at htally ⊢
    rw [htally]
    exact (UInt32.ofNat_add _ 1).symm
  · have hbound := h.bound
    simp only [countP_place Task.counted, hcounted, hcounted'] at hbound ⊢
    simp at hbound ⊢
    omega

theorem Balanced.down (h : Balanced ⟨s, before ++ t :: after⟩)
    (hactive : s'.state.activeClients = s.state.activeClients - 1)
    (hweight : s'.state.clients.entries.length + t'.weight + 1 =
      s.state.clients.entries.length + t.weight)
    (hcounted : t.counted = true → t'.counted = true) :
    Balanced ⟨s', before ++ t' :: after⟩ := by
  have htally := tally_stepped (n := 1) (m := 0) hweight before after
  refine ⟨?_, ?_⟩
  · rw [hactive, h.active]
    simp only [Nat.add_zero] at htally ⊢
    rw [← htally, UInt32.ofNat_add]
    exact UInt32.add_sub_cancel _ _
  · have hbound := h.bound
    have hle := countP_le_stepped hcounted before after
    simp only at hbound ⊢
    omega

structure Tallied (p : Pool Shared Task) : Prop where
  numbered : Numbered p
  known : Known p
  balanced : Balanced p

-- A step that leaves the accounts alone, of a task that keeps its place in them.
theorem Tallied.quiet (h : Tallied ⟨s, before ++ t :: after⟩)
    (hclients : s'.state.clients = s.state.clients)
    (hactive : s'.state.activeClients = s.state.activeClients)
    (hcount : s'.state.sessionCount = s.state.sessionCount) (hfetched : t'.fetched = t.fetched)
    (hinserted : ∀ x, t.inserted = some x → t'.inserted = some x) (htarget : t'.target = t.target)
    (hweight : t'.weight = t.weight) (hcounted : t.counted = true → t'.counted = true)
    (hsees : t'.Sees s'.state) : Tallied ⟨s', before ++ t' :: after⟩ := by
  refine ⟨h.numbered.same hfetched hcount, h.known.same hinserted htarget hclients hsees,
    h.balanced.same hactive ?_ hcounted⟩
  rw [hclients, hweight]

variable {x : UInt32}

theorem Task.Sees.erase (h : t.Sees s.state) :
    t.Sees { s.state with clients := s.state.clients.erase x } := by
  unfold Task.Sees at h ⊢
  split at h
  next x' r =>
    by_cases hx : x' = x
    · right
      rw [hx]
      exact fun hmem => (AList.mem_erase.mp hmem).1 rfl
    · rw [AList.lookup_erase_ne hx]
      exact h.imp_right fun hnot hmem => hnot (AList.mem_erase.mp hmem).2
  next x' => exact fun hmem => h (AList.mem_erase.mp hmem).2
  next => trivial

theorem Task.Sees.insertNew {r : ClientRef} (h : t.Sees s.state) (ht : t.target ≠ some x) :
    t.Sees { s.state with clients := HashIndex.insertNew x r s.state.clients } := by
  unfold Task.Sees at h ⊢
  have hkept {x' : UInt32} (hne : x' ≠ x) (hnot : x' ∉ s.state.clients) :
      x' ∉ HashIndex.insertNew x r s.state.clients := by
    rw [HashIndex.mem_insertNew]
    exact fun hmem => hmem.elim hne hnot
  split at h
  next x' r' =>
    have hne : x' ≠ x := fun hx => ht (congrArg some hx)
    exact h.imp ((HashIndex.lookup_insertNew_ne hne).trans ·) (hkept hne)
  next x' => exact hkept (fun hx => ht (congrArg some hx)) h
  next => trivial

theorem Tallied.disconnect_quiet {stage stage' : Disconnecting}
    (h : Tallied ⟨s, before ++ .Disconnect x stage :: after⟩)
    (hsame : s.state.SameClients s'.state)
    (hweight : (Task.Disconnect x stage').weight = (Task.Disconnect x stage).weight)
    (hsees : (Task.Disconnect x stage').Sees s'.state) :
    Tallied ⟨s', before ++ .Disconnect x stage' :: after⟩ :=
  h.quiet hsame.clients hsame.activeClients hsame.sessionCount rfl (fun _ h => h) rfl hweight id hsees

theorem Tallied.disconnect {stage stage' : Disconnecting}
    (h : Tallied ⟨s, before ++ .Disconnect x stage :: after⟩)
    (hstep : DisconnectStep x s.state s'.state stage stage') :
    Tallied ⟨s', before ++ .Disconnect x stage' :: after⟩ := by
  have hsees := h.known.sees (.Disconnect x stage) (by simp)
  cases hstep with
  | Found hlookup hsame =>
      refine h.disconnect_quiet hsame rfl (.inl ?_)
      rwa [hsame.clients]
  | Absent hlookup hsame =>
      refine h.disconnect_quiet hsame rfl ?_
      rw [Task.Sees, hsame.clients]
      exact AList.lookup_eq_none.mp hlookup
  | Alive hsame =>
      exact h.disconnect_quiet hsame rfl trivial
  | Dead hgone hsame =>
      refine h.disconnect_quiet hsame rfl ?_
      rw [Task.Sees, hsame.clients]
      exact hsees.resolve_left fun hlookup => hgone (HashIndex.mem_values.mpr ⟨x, hlookup⟩)
  | @Removed r hmem heq =>
      have hclients : s'.state.clients = s.state.clients.erase x := by rw [heq]
      obtain ⟨r', hlookup⟩ := HashIndex.mem_iff_lookup.mp hmem
      have hlength := HashIndex.length_erase hmem
      have hpos : 0 < s.state.clients.entries.length :=
        List.length_pos_of_mem (AList.mem_lookup_iff.mp hlookup)
      refine ⟨h.numbered.same rfl (by rw [heq]), h.known.step (fun _ h => h) rfl ?_ ?_ trivial,
        h.balanced.same (by rw [heq]) ?_ id⟩
      · intro x' hx'
        rw [hclients] at hx'
        exact .inl (AList.mem_erase.mp hx').2
      · intro u _ hu
        rw [heq]
        exact hu.erase
      · have hbefore : (Task.Disconnect x (.Remove (some r))).weight = 0 := rfl
        have hafter : (Task.Disconnect x (.Load r)).weight = 1 := rfl
        rw [hclients, hbefore, hafter]
        omega
  | Unclaimed hmem => exact absurd hmem hsees
  | Gone hmem hsame =>
      exact h.disconnect_quiet hsame rfl trivial
  | Counted heq =>
      refine ⟨h.numbered.same rfl (by rw [heq]), h.known.same (fun _ h => h) rfl (by rw [heq])
        trivial, h.balanced.down (by rw [heq]) ?_ id⟩
      rw [heq]
      rfl
  | On hremoved hlater hremoving hsame =>
      refine h.disconnect_quiet hsame ?_ ?_
      · simp only [Task.weight, Task.removing, hremoving]
        rfl
      · rcases hlater with hlater | rfl
        · cases stage' with
          | Upgrade r => cases hlater
          | Remove client => cases hlater
          | _ => trivial
        · trivial

theorem Tallied.connect {newcomer : Newcomer} {stage stage' : Connecting} {choice : Choice}
    (h : Tallied ⟨s, before ++ .Connect newcomer stage :: after⟩)
    (hfew : (before ++ .Connect newcomer stage :: after).countP Task.connects < 2 ^ 32)
    (hnext : stage.next newcomer s choice = some (s', stage')) :
    Tallied ⟨s', before ++ .Connect newcomer stage' :: after⟩ := by
  cases stage with
  | Handshake =>
      cases hnext
      split_ifs <;> exact h.quiet rfl rfl rfl rfl (fun _ h => h) rfl rfl id trivial
  | Refused => cases hnext
  | Fetch =>
      cases hnext
      exact ⟨h.numbered.fetch rfl rfl rfl rfl hfew, h.known.same (fun _ h => h) rfl rfl trivial,
        h.balanced.same rfl rfl id⟩
  | Check sessionId =>
      have hfree : sessionId ∉ s.state.clients := fun hmem =>
        h.numbered.ne_fetched rfl rfl (h.known.clients sessionId hmem) rfl
      simp only [Connecting.next, hfree, if_false] at hnext
      cases hnext
      exact h.quiet rfl rfl rfl rfl (fun _ h => h) rfl rfl id trivial
  | New sessionId =>
      cases hnext
      exact h.quiet rfl rfl rfl rfl (fun _ h => h) rfl rfl id trivial
  | Count r sessionId =>
      cases hnext
      exact ⟨h.numbered.same rfl rfl, h.known.same (fun _ h => h) rfl rfl trivial,
        h.balanced.up rfl rfl rfl rfl⟩
  | Insert r sessionId =>
      cases hnext
      have hfree : sessionId ∉ s.state.clients := fun hmem =>
        h.numbered.ne_fetched rfl rfl (h.known.clients sessionId hmem) rfl
      have hlength := HashIndex.length_insertNew (v := r) hfree
      refine ⟨h.numbered.same rfl rfl, h.known.step (fun _ h => ?_) rfl ?_ ?_ trivial,
        h.balanced.same rfl ?_ id⟩
      · cases h
      · intro x hx
        exact (HashIndex.mem_insertNew.mp hx).symm.imp_right fun hx => congrArg some hx.symm
      · intro u hu hsees
        refine hsees.insertNew fun htarget => ?_
        have hinserted := h.known.targets u (mem_of_mem_others hu) sessionId htarget
        exact h.numbered.ne_fetched rfl rfl hinserted rfl
      · have hbefore : (Task.Connect newcomer (.Insert r sessionId)).weight = 1 := rfl
        have hafter : (Task.Connect newcomer (.InsertUdp r sessionId)).weight = 0 := rfl
        rw [hbefore, hafter]
        exact hlength
  | InsertUdp r sessionId =>
      cases hnext
      exact h.quiet rfl rfl rfl rfl (fun _ h => h) rfl rfl id trivial
  | Done r sessionId => cases hnext

theorem Tallied.next {choice : Choice} (h : Tallied ⟨s, before ++ t :: after⟩)
    (hfew : (before ++ t :: after).countP Task.connects < 2 ^ 32)
    (hnext : t.next s choice = some (s', t')) : Tallied ⟨s', before ++ t' :: after⟩ := by
  cases t with
  | Client r k stage =>
      rcases Task.next_client hnext with ⟨result, k', rfl, rfl, rfl⟩ | ⟨stage', hstage, rfl⟩
      · exact h.quiet rfl rfl rfl rfl (fun _ h => h) rfl rfl id trivial
      · have hsame := (Joining.next_spec hstage).1
        exact h.quiet hsame.clients hsame.activeClients hsame.sessionCount rfl (fun _ h => h) rfl rfl
          id trivial
  | Disconnect x stage =>
      obtain ⟨stage', hstage, rfl⟩ := Task.next_disconnect hnext
      exact h.disconnect (Disconnecting.next_spec hstage).1
  | Connect newcomer stage =>
      obtain ⟨stage', hstage, rfl⟩ := Task.next_connect hnext
      exact h.connect hfew hstage

theorem Task.next_connects {choice : Choice} (hnext : t.next s choice = some (s', t')) :
    t'.connects = t.connects := by
  cases t with
  | Client r k stage =>
      rcases Task.next_client hnext with ⟨result, k', rfl, rfl, rfl⟩ | ⟨stage', hstage, rfl⟩
      · rfl
      · rfl
  | Disconnect x stage =>
      obtain ⟨stage', hstage, rfl⟩ := Task.next_disconnect hnext
      rfl
  | Connect newcomer stage =>
      obtain ⟨stage', hstage, rfl⟩ := Task.next_connect hnext
      rfl

theorem Tallied.start (h : Tallied ⟨s, before⟩) (hstarts : calling.starts ⟨s, before⟩ t = true) :
    Tallied ⟨s, before ++ [t]⟩ := by
  have hnew : t.fetched = none ∧ t.weight = 0 ∧ t.counted = false ∧ t.Sees s.state ∧
      ∀ x, t.target = some x → ∃ u ∈ before, u.inserted = some x := by
    cases t with
    | Client r k stage => exact ⟨rfl, rfl, rfl, trivial, fun x hx => by cases hx⟩
    | Disconnect x stage =>
        cases stage with
        | Lookup =>
            refine ⟨rfl, rfl, rfl, trivial, ?_⟩
            rintro x' ⟨⟩
            simpa [calling] using hstarts
        | _ => cases hstarts
    | Connect newcomer stage =>
        cases stage with
        | Fetch => exact ⟨rfl, rfl, rfl, trivial, fun x hx => by cases hx⟩
        | _ => cases hstarts
  obtain ⟨hfetched, hweight, hcounted, hsees, htarget⟩ := hnew
  have hcount : (before ++ [t]).countP (fun t => t.fetched.isSome) =
      before.countP fun t => t.fetched.isSome := by
    rw [countP_place, List.append_nil, hfetched]
    rfl
  have htally : tally s.state (before ++ [t]) = tally s.state before := by
    rw [tally_place, List.append_nil, hweight, Nat.add_zero]
  have hinserted {x : UInt32} (hx : ∃ u ∈ before, u.inserted = some x) :
      ∃ u ∈ before ++ [t], u.inserted = some x :=
    hx.imp fun u hu => ⟨List.mem_append_left _ hu.1, hu.2⟩
  refine ⟨⟨h.numbered.ids.started ?_, ?_, ?_⟩, ⟨?_, ?_, ?_⟩, ⟨?_, ?_⟩⟩
  · rw [hfetched]
    exact fun _ h => by cases h
  · rw [hcount]
    exact h.numbered.sessionCount
  · rw [hcount]
    refine forall_mem_started h.numbered.below ?_
    rw [hfetched]
    exact fun _ h => by cases h
  · exact fun x hx => hinserted (h.known.clients x hx)
  · exact forall_mem_started (fun u hu x hx => hinserted (h.known.targets u hu x hx))
      fun x hx => hinserted (htarget x hx)
  · exact forall_mem_started h.known.sees hsees
  · rw [htally]
    exact h.balanced.active
  · rw [htally, countP_place, List.append_nil, hcounted]
    exact h.balanced.bound

end

section

variable {removePositionalData : Bool} {anticheat : AnticheatConfig} {bans : BanList}
  {p : Pool Shared Task} {turns : List (Turn Choice Task)}

theorem tallied_idle : Tallied (ServerState.new removePositionalData anticheat bans).idle where
  numbered := ⟨List.nodup_nil, rfl, by simp [ServerState.idle]⟩
  known := ⟨fun x hx => absurd hx (AList.notMem_empty x), by simp [ServerState.idle],
    by simp [ServerState.idle]⟩
  balanced := ⟨rfl, Nat.le_refl 0⟩

theorem tallied_run
    (hrun : Run calling.Step (ServerState.new removePositionalData anticheat bans).idle turns p)
    (hfew : p.tasks.countP Task.connects < 2 ^ 32) : Tallied p := by
  refine Tasks.invariant (I := fun p => p.tasks.countP Task.connects < 2 ^ 32 → Tallied p)
    ?_ ?_ (Tasks.run_always hrun) (fun _ => tallied_idle) hfew
  · intro s tasks t h hstarts _ hfew
    refine (h (Nat.lt_of_le_of_lt ?_ hfew)).start hstarts
    exact (List.sublist_append_left tasks [t]).countP_le
  · intro s before t after choice s' t' h hnext _ hfew
    have hsame : (before ++ t :: after).countP Task.connects =
        (before ++ t' :: after).countP Task.connects := by
      rw [countP_place, countP_place, Task.next_connects hnext]
    simp only [← hsame] at hfew
    exact (h hfew).next hfew hnext

theorem tally_lt (h : Tallied p) (hfew : p.tasks.countP Task.connects < 2 ^ 32) :
    tally p.shared.state p.tasks < 2 ^ 32 := by
  have hle : p.tasks.countP Task.counted ≤ p.tasks.countP Task.connects := by
    refine List.countP_mono_left fun t _ ht => ?_
    unfold Task.counted at ht
    split at ht
    all_goals first | rfl | cases ht
  have hbound := h.balanced.bound
  omega

-- The counter is the number of clients in the map and of the calls that are between
-- their two steps. So it does not underflow, and it is right when nobody is under way.
theorem activeClients_eq_tally
    (hrun : Run calling.Step (ServerState.new removePositionalData anticheat bans).idle turns p)
    (hfew : p.tasks.countP Task.connects < 2 ^ 32) :
    p.shared.state.activeClients.toNat =
      p.shared.state.clients.entries.length + p.tasks.countP Task.adding +
        p.tasks.countP Task.removing ∧
    (∀ x r k, .Disconnect x (.Count r k) ∈ p.tasks → 0 < p.shared.state.activeClients.toNat) ∧
    ((∀ t ∈ p.tasks, t.finished = true) →
      p.shared.state.activeClients.toNat = p.shared.state.clients.entries.length) := by
  have htallied := tallied_run hrun hfew
  have hactive : p.shared.state.activeClients.toNat = tally p.shared.state p.tasks := by
    rw [htallied.balanced.active, UInt32.toNat_ofNat']
    exact Nat.mod_eq_of_lt (tally_lt htallied hfew)
  unfold tally at hactive
  refine ⟨hactive, fun x r k hcount => ?_, fun hfinished => ?_⟩
  · have hpos : 0 < p.tasks.countP Task.removing := List.countP_pos_iff.mpr ⟨_, hcount, rfl⟩
    omega
  · have hadding : p.tasks.countP Task.adding = 0 := by
      refine List.countP_eq_zero.mpr fun t ht hadding => ?_
      have hdone := hfinished t ht
      unfold Task.adding at hadding
      split at hadding
      · cases hdone
      · cases hadding
    have hremoving : p.tasks.countP Task.removing = 0 := by
      refine List.countP_eq_zero.mpr fun t ht hremoving => ?_
      have hdone := hfinished t ht
      cases t with
      | Disconnect x stage =>
          cases stage with
          | Done => cases hremoving
          | _ => cases hdone
      | _ => cases hremoving
    omega

end

def sampleNewcomer : Newcomer where
  username := "eve"
  crypt := .default (Vector.replicate KEY_SIZE 1) (.new (Vector.replicate KEY_SIZE 1)) 0
  write := .Open
  peerIp := "10.0.0.1"
  now := 0

-- A client is disconnected twice, while the next one is on its way in: the first
-- call has removed it, the second one finds that it is gone.
def racingTurns : List (Turn Choice Task) :=
  .Start (.Connect sampleNewcomer .Fetch) :: turnsOf 0 (List.replicate 6 .Go) ++
    [.Start (.Disconnect 1 .Lookup), .Start (.Disconnect 1 .Lookup),
      .Start (.Connect sampleNewcomer .Fetch)] ++
    turnsOf 1 (List.replicate 2 .Go) ++ turnsOf 2 (List.replicate 2 .Go) ++
    turnsOf 1 (List.replicate 3 .Go) ++ turnsOf 2 [.Go] ++ turnsOf 3 (List.replicate 4 .Go)

theorem activeClients_eq_tally_racing :
    ∃ p, Run calling.Step ServerState.sampleServer.idle racingTurns p ∧
      p.shared.state.clients.entries.length = 0 ∧ p.tasks.countP Task.adding = 1 ∧
      p.tasks.countP Task.removing = 1 ∧ p.shared.state.activeClients.toNat = 2 := by
  have hplay : ((ServerState.sampleServer.idle.play calling (fun _ _ => true) racingTurns).any
      fun p => p.shared.state.clients.entries.length == 0 && p.tasks.countP Task.adding == 1 &&
        p.tasks.countP Task.removing == 1 && p.tasks.countP Task.connects == 2) = true := by
    decide +kernel
  obtain ⟨p, hrun, hseen⟩ := Pool.exists_run hplay
  simp only [Bool.and_eq_true, beq_iff_eq] at hseen
  obtain ⟨⟨⟨hclients, hadding⟩, hremoving⟩, hconnects⟩ := hseen
  have hrun := Tasks.run_step hrun
  obtain ⟨hactive, -, -⟩ := activeClients_eq_tally hrun (by omega)
  exact ⟨p, hrun, hclients, hadding, hremoving, by omega⟩

end Mumble
