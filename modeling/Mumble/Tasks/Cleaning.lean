import Mumble.Tasks.Alone
import Mumble.Reachable

/-!
The cleaner and the queue of clients to disconnect. Other tasks put sessions into
the queue while the cleaner walks over it and clears it.
-/

namespace Mumble

open Mumble.Lib

-- A walk over the queue that has come to its end: what was in the queue when it
-- began, and what it copied. Entries that are there all the time are visited.
structure Drained where
  queued : List UInt32
  clientsToRemove : HashIndex UInt32 DisconnectReason
  copied : (queued.all fun x => x ∈ clientsToRemove) = true

-- Where a `clean_run` is. `passed` are the sessions it has called `disconnect` for.
inductive Cleaning where
  | Begin
  | Walk (queued : List UInt32) (clientsToRemove : HashIndex UInt32 DisconnectReason)
  | Clear (walk : Drained)
  | Inspect (plan : ServerState.CleanPlan)
  | Reset (clientsToRemove : HashIndex UInt32 DisconnectReason) (clients : List ClientRef)
  | Remove (passed rest : List UInt32)
  | Disconnect (passed : List UInt32) (clientSession : UInt32) (stage : Disconnecting)
      (rest : List UInt32)
  | Done (passed : List UInt32)

def Disconnecting.returned : Disconnecting → Bool
  | .Done => true
  | _ => false

def Cleaning.next (s : Shared) (choice : Choice) : Cleaning → Option (Shared × Cleaning)
  | .Begin => some (s, .Walk s.state.disconnectQueue.keys ∅)
  | .Walk queued clientsToRemove =>
      match choice with
      | .Stop =>
          if copied : (queued.all fun x => x ∈ clientsToRemove) = true then
            some (s, .Clear ⟨queued, clientsToRemove, copied⟩)
          else none
      | .Entry x =>
          (s.state.disconnectQueue.lookup x).map fun reason =>
            (s, .Walk queued (HashIndex.insertNew x reason clientsToRemove))
      | _ => none
  | .Clear walk =>
      some (s.update { s.state with disconnectQueue := ∅ }, .Inspect ⟨walk.clientsToRemove, []⟩)
  | .Inspect plan =>
      match choice with
      | .Look r now =>
          if r ∈ s.state.clients.values then some (s, .Inspect (s.state.inspectClient now plan r))
          else none
      | .Stop => some (s, .Reset plan.clientsToRemove plan.clientsToResetCrypt)
      | _ => none
  | .Reset clientsToRemove [] => some (s, .Remove [] clientsToRemove.keys)
  | .Reset clientsToRemove (r :: clients) =>
      match choice with
      | .Reset now =>
          let reset := ServerState.logged (s.state.resetClientCrypt r now)
          match reset.2 with
          | .ok _ => some (s.update reset.1, .Reset clientsToRemove clients)
          -- the write has to wait
          | .error _ => none
      | _ => none
  | .Remove passed [] => some (s, .Done passed)
  | .Remove passed (x :: rest) => some (s, .Disconnect (passed ++ [x]) x .Lookup rest)
  | .Disconnect passed x stage rest =>
      if stage.returned then some (s, .Remove passed rest)
      else (stage.next x s choice).map fun next => (next.1, .Disconnect passed x next.2 rest)
  | .Done _ => none

-- A `clean_run`, a call of `add_client_to_disconnect_queue`, or another task of the
-- server, which may call it too.
inductive Work where
  | Clean (stage : Cleaning)
  | Kick (sessionId : UInt32) (reason : DisconnectReason)
  | Kicked (sessionId : UInt32) (inserted : Bool)
  | Other (task : Task)

def Work.next (s : Shared) (choice : Choice) : Work → Option (Shared × Work)
  | .Clean stage => (stage.next s choice).map fun next => (next.1, .Clean next.2)
  | .Kick x reason =>
      some (s.update (s.state.addClientToDisconnectQueue x reason),
        .Kicked x (x ∉ s.state.disconnectQueue))
  | .Kicked _ _ => none
  | .Other t => (t.next s choice).map fun next => (next.1, .Other next.2)

-- The `clean_run` has returned, or the task is not one.
def Work.cleaned : Work → Bool
  | .Clean (.Done _) => true
  | .Clean _ => false
  | _ => true

-- There is one cleaner, which runs again and again.
def ticking : Tasks Shared Choice Work where
  next := Work.next
  starts p t :=
    match t with
    | .Clean .Begin => p.tasks.all Work.cleaned
    | .Kick _ _ => true
    | .Other (.Client _ _ .Load) => true
    | .Other (.Disconnect _ .Lookup) => true
    | .Other (.Connect _ .Handshake) => true
    | _ => false

-- Who came into the queue while the walk was under way was still visited by it.
def visitsNew (p : Pool Shared Work) : Turn Choice Work → Bool
  | .Next place _ =>
      match p.tasks[place]? with
      | some (.Clean (.Clear walk)) =>
          p.shared.state.disconnectQueue.keys.all fun x =>
            x ∈ walk.queued || x ∈ walk.clientsToRemove
      | _ => true
  | .Start _ => true

-- The tasks of the server only put sessions into the queue.
def ServerState.Queues (s s' : ServerState) : Prop :=
  ∀ x ∈ s.disconnectQueue, x ∈ s'.disconnectQueue

theorem ServerState.Queues.of_eq {s s' : ServerState}
    (h : s'.disconnectQueue = s.disconnectQueue) : s.Queues s' := by
  intro x hx
  rw [h]
  exact hx

theorem ServerState.Queues.of_insertNew {s s' : ServerState} {x : UInt32} {reason : DisconnectReason}
    (h : s'.disconnectQueue = HashIndex.insertNew x reason s.disconnectQueue) : s.Queues s' := by
  intro y hy
  rw [h]
  exact HashIndex.mem_insertNew.mpr (.inr hy)

section

variable {s s' : Shared} {choice : Choice}

theorem Telling.next_queues {message : ServerMessage} {s s' : ServerState} {stage : Telling}
    {stage' : Option Telling} (h : stage.next message s choice = some (s', stage')) :
    s.Queues s' := by
  cases stage with
  | Walk =>
      simp only [Telling.next] at h
      split at h
      · split_ifs at h
        cases h
        exact .of_eq rfl
      · cases h
        exact .of_eq rfl
      · cases h
  | Send r =>
      cases h
      exact .of_eq rfl
  | Queue sessionId =>
      cases h
      exact .of_insertNew rfl

theorem Leaving.next_queues {clientSession k : UInt32} {stage : Leaving} {stage' : Option Leaving}
    (h : stage.next clientSession k s choice = some (s', stage')) : s.state.Queues s'.state := by
  cases stage with
  | Enter =>
      simp only [Leaving.next] at h
      split at h
      · split_ifs at h
        cases h
        exact .of_eq rfl
      · cases h
        exact .of_eq rfl
  | Remove =>
      cases h
      exact .of_eq rfl
  | Check =>
      simp only [Leaving.next] at h
      split at h
      · split_ifs at h
        all_goals
          cases h
          exact .of_eq rfl
      · cases h
  | Delete =>
      simp only [Leaving.next] at h
      split_ifs at h
      cases h
      exact .of_eq rfl
  | Tell stage =>
      obtain ⟨next, hnext, heq⟩ := Option.map_eq_some_iff.mp h
      cases heq
      exact Telling.next_queues hnext

theorem Joining.next_queues {r : ClientRef} {k : UInt32} {stage stage' : Joining}
    (h : stage.next r k s choice = some (s', stage')) : s.state.Queues s'.state := by
  cases stage with
  | Find leave =>
      simp only [Joining.next] at h
      split at h
      · split_ifs at h
        cases h
        exact .of_eq rfl
      · cases h
        exact .of_eq rfl
  | Tell leave userState stage =>
      obtain ⟨next, hnext, heq⟩ := Option.map_eq_some_iff.mp h
      cases heq
      exact Telling.next_queues hnext
  | Leave leaveChannelId stage =>
      obtain ⟨next, hnext, heq⟩ := Option.map_eq_some_iff.mp h
      cases heq
      exact Leaving.next_queues hnext
  | Done result => cases h
  | _ =>
      cases h
      exact .of_eq rfl

theorem Disconnecting.next_queues {x : UInt32} {stage stage' : Disconnecting}
    (h : stage.next x s choice = some (s', stage')) : s.state.Queues s'.state := by
  cases stage with
  | Lookup =>
      simp only [Disconnecting.next] at h
      split at h
      all_goals
        cases h
        exact .of_eq rfl
  | Upgrade r =>
      simp only [Disconnecting.next] at h
      split_ifs at h
      all_goals
        cases h
        exact .of_eq rfl
  | Remove client =>
      simp only [Disconnecting.next] at h
      split_ifs at h
      all_goals
        cases h
        exact .of_eq rfl
  | Tell channelId stage =>
      obtain ⟨next, hnext, heq⟩ := Option.map_eq_some_iff.mp h
      cases heq
      exact Telling.next_queues hnext
  | Leave channelId stage =>
      obtain ⟨next, hnext, heq⟩ := Option.map_eq_some_iff.mp h
      cases heq
      exact Leaving.next_queues hnext
  | Find channelId =>
      simp only [Disconnecting.next] at h
      split at h
      · split_ifs at h
        cases h
        exact .of_eq rfl
      · cases h
        exact .of_eq rfl
  | Done => cases h
  | _ =>
      cases h
      exact .of_eq rfl

theorem Task.next_queues {t t' : Task} (h : t.next s choice = some (s', t')) :
    s.state.Queues s'.state := by
  cases t with
  | Client r k stage =>
      rcases Task.next_client h with ⟨result, k', rfl, rfl, rfl⟩ | ⟨stage', hstage, rfl⟩
      · exact .of_eq rfl
      · exact Joining.next_queues hstage
  | Disconnect x stage =>
      obtain ⟨stage', hstage, rfl⟩ := Task.next_disconnect h
      exact Disconnecting.next_queues hstage
  | Connect newcomer stage =>
      obtain ⟨stage', hstage, rfl⟩ := Task.next_connect h
      cases stage with
      | Refused | Done _ _ => cases hstage
      | _ =>
          cases hstage
          exact .of_eq rfl

theorem queues_resetClientCrypt (s : ServerState) (r : ClientRef) (now : Instant) :
    s.Queues (s.resetClientCrypt r now).1 := by
  intro x hx
  unfold ServerState.resetClientCrypt ServerState.releaseSocket
  dsimp only
  split <;> exact hx

-- The session is on the list of the `clean_run`, or was passed on.
def Cleaning.Has (x : UInt32) : Cleaning → Prop
  | .Inspect plan => x ∈ plan.clientsToRemove
  | .Reset clientsToRemove _ => x ∈ clientsToRemove
  | .Remove passed rest => x ∈ passed ∨ x ∈ rest
  | .Disconnect passed _ _ rest => x ∈ passed ∨ x ∈ rest
  | .Done passed => x ∈ passed
  | _ => False

-- What a step of a `clean_run` can do: it clears the queue, or it leaves in it what
-- is there; and it drops nobody from its list.
theorem Cleaning.next_spec {stage stage' : Cleaning}
    (h : stage.next s choice = some (s', stage')) :
    ((∃ walk, stage = .Clear walk ∧ stage' = .Inspect ⟨walk.clientsToRemove, []⟩) ∨
      s.state.Queues s'.state) ∧
    ∀ x, stage.Has x → stage'.Has x := by
  cases stage with
  | Begin =>
      cases h
      exact ⟨.inr (.of_eq rfl), fun _ hx => hx.elim⟩
  | Walk queued clientsToRemove =>
      refine ⟨.inr ?_, fun _ hx => hx.elim⟩
      simp only [Cleaning.next] at h
      split at h
      · split_ifs at h
        cases h
        exact .of_eq rfl
      · obtain ⟨reason, -, heq⟩ := Option.map_eq_some_iff.mp h
        cases heq
        exact .of_eq rfl
      · cases h
  | Clear walk =>
      cases h
      exact ⟨.inl ⟨walk, rfl, rfl⟩, fun _ hx => hx.elim⟩
  | Inspect plan =>
      simp only [Cleaning.next] at h
      split at h
      · split_ifs at h
        cases h
        refine ⟨.inr (.of_eq rfl), fun _ hx => ?_⟩
        exact ServerState.mem_clientsToRemove_inspectClient.mpr (.inl hx)
      · cases h
        exact ⟨.inr (.of_eq rfl), fun _ hx => hx⟩
      · cases h
  | Reset clientsToRemove clients =>
      cases clients with
      | nil =>
          cases h
          exact ⟨.inr (.of_eq rfl), fun _ hx => .inr hx⟩
      | cons r clients =>
          simp only [Cleaning.next, ServerState.logged_state] at h
          split at h
          · split at h
            · cases h
              exact ⟨.inr (queues_resetClientCrypt _ _ _), fun _ hx => hx⟩
            · cases h
          · cases h
  | Remove passed rest =>
      cases rest with
      | nil =>
          cases h
          exact ⟨.inr (.of_eq rfl), fun _ hx => hx.resolve_right List.not_mem_nil⟩
      | cons x rest =>
          cases h
          refine ⟨.inr (.of_eq rfl), fun x' hx => ?_⟩
          simp only [Cleaning.Has, List.mem_append, List.mem_cons] at hx ⊢
          tauto
  | Disconnect passed x stage rest =>
      simp only [Cleaning.next] at h
      split_ifs at h
      · cases h
        exact ⟨.inr (.of_eq rfl), fun _ hx => hx⟩
      · obtain ⟨next, hnext, heq⟩ := Option.map_eq_some_iff.mp h
        cases heq
        exact ⟨.inr (Disconnecting.next_queues hnext), fun _ hx => hx⟩
  | Done passed => cases h

theorem Work.next_queues {t t' : Work} (h : t.next s choice = some (s', t')) :
    (∃ walk, t = .Clean (.Clear walk) ∧ t' = .Clean (.Inspect ⟨walk.clientsToRemove, []⟩)) ∨
      s.state.Queues s'.state := by
  cases t with
  | Clean stage =>
      obtain ⟨next, hnext, heq⟩ := Option.map_eq_some_iff.mp h
      cases heq
      exact (Cleaning.next_spec hnext).1.imp_left fun ⟨walk, hwalk, hinspect⟩ =>
        ⟨walk, congrArg _ hwalk, congrArg _ hinspect⟩
  | Kick x reason =>
      cases h
      exact .inr (.of_insertNew rfl)
  | Kicked x inserted => cases h
  | Other t =>
      obtain ⟨next, hnext, heq⟩ := Option.map_eq_some_iff.mp h
      cases heq
      exact .inr (Task.next_queues hnext)

def Work.Has (x : UInt32) : Work → Prop
  | .Clean stage => stage.Has x
  | _ => False

theorem Work.next_has {t t' : Work} {x : UInt32} (ht : t.Has x)
    (h : t.next s choice = some (s', t')) : t'.Has x := by
  cases t with
  | Clean stage =>
      obtain ⟨next, hnext, heq⟩ := Option.map_eq_some_iff.mp h
      cases heq
      exact (Cleaning.next_spec hnext).2 x ht
  | _ => exact ht.elim

end

-- A `clean_run` that is left alone is the operation of `Server`.

section

variable {s : Shared} (now : Instant)

theorem alone_walk {queued : List UInt32} {m : HashIndex UInt32 DisconnectReason}
    {entries : List (Sigma fun _ : UInt32 => DisconnectReason)}
    (hentries : ∀ e ∈ entries, e ∈ s.state.disconnectQueue.entries) :
    Alone Work.next (s, .Clean (.Walk queued m))
      (s, .Clean (.Walk queued (entries.foldl (fun m e => HashIndex.insertNew e.1 e.2 m) m))) := by
  induction entries generalizing m with
  | nil => exact .refl _
  | cons e entries ih =>
      have hlookup : s.state.disconnectQueue.lookup e.1 = some e.2 :=
        AList.mem_lookup_iff.mpr (hentries e (List.mem_cons_self ..))
      have hentry : Work.next s (.Entry e.1) (.Clean (.Walk queued m)) =
          some (s, .Clean (.Walk queued (HashIndex.insertNew e.1 e.2 m))) := by
        simp only [Work.next, Cleaning.next, hlookup, Option.map_some]
      exact .step _ hentry (ih fun e he => hentries e (List.mem_cons_of_mem _ he))

theorem alone_inspect {plan : ServerState.CleanPlan} {clients : List ClientRef}
    (hclients : ∀ r ∈ clients, r ∈ s.state.clients.values) :
    Alone Work.next (s, .Clean (.Inspect plan))
      (s, .Clean (.Inspect
        (clients.foldl (fun plan r => s.state.inspectClient now plan r) plan))) := by
  induction clients generalizing plan with
  | nil => exact .refl _
  | cons r clients ih =>
      have hlook : Work.next s (.Look r now) (.Clean (.Inspect plan)) =
          some (s, .Clean (.Inspect (s.state.inspectClient now plan r))) := by
        simp only [Work.next, Cleaning.next, hclients r (List.mem_cons_self ..), if_true,
          Option.map_some]
      exact .step _ hlook (ih fun r hr => hclients r (List.mem_cons_of_mem _ hr))

theorem alone_reset {m : HashIndex UInt32 DisconnectReason} {clients : List ClientRef}
    (hdone : (s.state.resetAll now clients).2 = .ok ()) :
    Alone Work.next (s, .Clean (.Reset m clients))
      (s.update (s.state.resetAll now clients).1, .Clean (.Remove [] m.keys)) := by
  induction clients generalizing s with
  | nil => exact .step .Go rfl (.refl _)
  | cons r clients ih =>
      obtain ⟨hreset, hrest⟩ := ServerState.andThen_ok hdone
      have hnext : Work.next s (.Reset now) (.Clean (.Reset m (r :: clients))) =
          some (s.update (ServerState.logged (s.state.resetClientCrypt r now)).1,
            .Clean (.Reset m clients)) := by
        simp only [Work.next, Cleaning.next, hreset, Option.map_some]
      have halone := ih (s := s.update _) ((congrArg Prod.snd hrest).symm.trans hdone)
      rw [ServerState.resetAll, hrest]
      exact .step _ hnext halone

theorem alone_remove {passed rest : List UInt32} (hfree : ∀ k, s.held k = false) :
    Alone Work.next (s, .Clean (.Remove passed rest))
      (s.update (rest.foldl (fun s x => s.disconnect x) s.state),
        .Clean (.Done (passed ++ rest))) := by
  induction rest generalizing s passed with
  | nil =>
      rw [List.append_nil]
      exact .step .Go rfl (.refl _)
  | cons x rest ih =>
      have hdisconnect : Alone Work.next
          (s, .Clean (.Disconnect (passed ++ [x]) x .Lookup rest))
          (s.update (s.state.disconnect x), .Clean (.Disconnect (passed ++ [x]) x .Done rest)) := by
        refine (alone_disconnect x hfree).within (I := fun y => ∃ stage, y.2 = .Disconnect x stage)
          (fun y => (y.1, Work.Clean (match y.2 with
            | .Disconnect _ stage => .Disconnect (passed ++ [x]) x stage rest
            | _ => .Begin))) ?_ ⟨.Lookup, rfl⟩
        rintro ⟨s, t⟩ choice ⟨s', t'⟩ ⟨stage, rfl⟩ hnext
        obtain ⟨stage', hstage, rfl⟩ := Task.next_disconnect hnext
        refine ⟨⟨stage', rfl⟩, ?_⟩
        have hgoes : stage.returned = false := by
          cases stage with
          | Done => cases hstage
          | _ => rfl
        simp only [Work.next, Cleaning.next, hgoes, Bool.false_eq_true, if_false, hstage,
          Option.map_some]
      have happend : passed ++ x :: rest = (passed ++ [x]) ++ rest := by simp
      rw [happend]
      refine .step .Go rfl (hdisconnect.trans (.step .Go rfl ?_))
      exact ih (s := s.update (s.state.disconnect x)) hfree

theorem alone_cleanRun (hfree : ∀ k, s.held k = false)
    (hdone : (s.state.cleanRun now).2 = .ok ()) :
    Alone Work.next (s, .Clean .Begin)
      (s.update (s.state.cleanRun now).1,
        .Clean (.Done (s.state.cleanPlan now).clientsToRemove.keys)) := by
  have hcopied : (s.state.disconnectQueue.keys.all fun x =>
      x ∈ s.state.disconnectQueue.entries.foldl (fun m e => HashIndex.insertNew e.1 e.2 m) ∅)
      = true := by
    refine List.all_eq_true.mpr fun x hx => decide_eq_true ?_
    exact HashIndex.mem_foldl_insertNew.mpr (.inl hx)
  have hstop : Work.next s .Stop (.Clean (.Walk s.state.disconnectQueue.keys
      (s.state.disconnectQueue.entries.foldl (fun m e => HashIndex.insertNew e.1 e.2 m) ∅))) =
      some (s, .Clean (.Clear ⟨_, _, hcopied⟩)) := by
    simp only [Work.next, Cleaning.next, hcopied, dif_pos, Option.map_some]
  obtain ⟨hresets, hclean⟩ := ServerState.andThen_ok hdone
  refine .step .Go rfl ((alone_walk fun _ he => he).trans (.step .Stop hstop (.step .Go rfl ?_)))
  refine (alone_inspect (s := s.update { s.state with disconnectQueue := ∅ }) now
    fun _ hr => hr).trans (.step .Stop rfl ?_)
  have hcleaned : (s.state.cleanRun now).1 = _ := congrArg Prod.fst hclean
  rw [hcleaned]
  exact (alone_reset (s := s.update _) now hresets).trans (alone_remove (s := s.update _) hfree)

end

-- Who is on the list of a `clean_run` has been passed on when it returns.
theorem mem_passed {x : UInt32} {s : Shared} {before after : List Work} {t : Work}
    (ht : t.Has x) {q : Pool Shared Work} {turns : List (Turn Choice Work)}
    (hrun : Run ticking.Step ⟨s, before ++ t :: after⟩ turns q) {passed : List UInt32}
    (hdone : q.tasks[before.length]? = some (.Clean (.Done passed))) : x ∈ passed := by
  obtain ⟨t', ht', hhas⟩ := Tasks.place_invariant (P := Work.Has x)
    (fun ht h => Work.next_has ht h) hrun ⟨t, getElem?_place _ _ _, ht⟩
  rw [hdone] at ht'
  cases ht'
  exact hhas

theorem exists_passed {x : UInt32} {s : Shared} {m : HashIndex UInt32 DisconnectReason} (hx : x ∈ m)
    (before after : List Work) (hfree : ∀ k, s.held k = false) :
    ∃ turns q passed,
      Run ticking.Step ⟨s, before ++ .Clean (.Inspect ⟨m, []⟩) :: after⟩ turns q ∧
      q.tasks[before.length]? = some (.Clean (.Done passed)) ∧ x ∈ passed := by
  obtain ⟨s', passed, halone⟩ : ∃ s' passed,
      Alone Work.next (s, .Clean (.Inspect ⟨m, []⟩)) (s', .Clean (.Done passed)) :=
    ⟨_, _, .step .Stop rfl ((alone_reset 0 rfl).trans (alone_remove hfree))⟩
  obtain ⟨turns, hrun⟩ := halone.run (T := ticking) before after
  have hdone := getElem?_place before (Work.Clean (.Done passed)) after
  exact ⟨turns, _, passed, hrun, hdone,
    mem_passed (t := .Clean (.Inspect ⟨m, []⟩)) hx hrun hdone⟩

-- A session leaves the queue only when a `clean_run` clears it, and then it is on the
-- list of that `clean_run`, which passes it on to `disconnect` before it returns.
theorem kick_passed_on {p p' p'' : Pool Shared Work} {turn : Turn Choice Work}
    {turns : List (Turn Choice Work)} (hstep : ticking.StepIf visitsNew p turn p')
    (hafter : Run (ticking.StepIf visitsNew) p' turns p'') {x : UInt32}
    (hqueued : x ∈ p.shared.state.disconnectQueue)
    (hgone : x ∉ p'.shared.state.disconnectQueue) :
    ∃ place choice walk, turn = .Next place choice ∧
      p.tasks[place]? = some (.Clean (.Clear walk)) ∧ x ∈ walk.clientsToRemove ∧
      (∀ passed, p''.tasks[place]? = some (.Clean (.Done passed)) → x ∈ passed) ∧
      ((∀ k, p'.shared.held k = false) → ∃ turns q passed, Run ticking.Step p' turns q ∧
        q.tasks[place]? = some (.Clean (.Done passed)) ∧ x ∈ passed) := by
  obtain ⟨hstep, hvisits⟩ := hstep
  rcases Tasks.step_cases hstep with ⟨t, rfl, -, rfl⟩ |
    ⟨before, t, after, choice, s, t', rfl, hpool, hnext, rfl⟩
  · exact absurd hqueued hgone
  · have hplace : p.tasks[before.length]? = some t := by
      rw [hpool]
      exact getElem?_place _ _ _
    rcases Work.next_queues hnext with ⟨walk, rfl, rfl⟩ | hqueues
    · have hlisted : x ∈ walk.clientsToRemove := by
        simp only [visitsNew, hplace, List.all_eq_true, Bool.or_eq_true, decide_eq_true_eq]
          at hvisits
        rcases hvisits x hqueued with hold | hnew
        · exact of_decide_eq_true (List.all_eq_true.mp walk.copied x hold)
        · exact hnew
      exact ⟨before.length, choice, walk, rfl, hplace, hlisted,
        fun _ hdone => mem_passed (t := .Clean (.Inspect ⟨walk.clientsToRemove, []⟩)) hlisted
          (Tasks.run_step hafter) hdone,
        exists_passed hlisted before after⟩
    · exact absurd (hqueues x hqueued) hgone

-- Two clients and nothing to do for the cleaner.
def quietServer : Pool Shared Work :=
  ⟨⟨ServerState.sampleServer.afterAll ServerState.sampleClients, fun _ => false⟩, []⟩

def Work.passed (sessions : List UInt32) : Work → Bool
  | .Clean (.Done passed) => passed == sessions
  | _ => false

def Work.kicked (sessionId : UInt32) : Work → Bool
  | .Kicked x inserted => x = sessionId && inserted
  | _ => false

theorem Work.kicked_iff {sessionId : UInt32} {t : Work} :
    t.kicked sessionId = true ↔ t = .Kicked sessionId true := by
  constructor
  · intro h
    unfold Work.kicked at h
    split at h
    · simp only [Bool.and_eq_true, decide_eq_true_eq] at h
      rw [h.1, h.2]
    · cases h
  · rintro rfl
    simp [Work.kicked]

theorem Work.passed_iff {sessions : List UInt32} {t : Work} :
    t.passed sessions = true ↔ t = .Clean (.Done sessions) := by
  constructor
  · intro h
    unfold Work.passed at h
    split at h
    · rw [beq_iff_eq.mp h]
    · cases h
  · rintro rfl
    exact beq_self_eq_true sessions

-- The first client is kicked before the `clean_run`, the second one while it walks
-- over the queue, in time for the walk.
def caughtTurns : List (Turn Choice Work) :=
  [.Start (.Kick 1 .Anticheat), .Start (.Kick 2 .Anticheat), .Start (.Clean .Begin), .Next 0 .Go,
    .Next 2 .Go, .Next 2 (.Entry 1), .Next 1 .Go, .Next 2 (.Entry 2), .Next 2 .Stop]

-- The choices of the `clean_run` for one client, and after it has cleared the queue.
def removeOne : List Choice := List.replicate 9 .Go ++ .Stop :: List.replicate 6 .Go

def removeBoth : List (Turn Choice Work) :=
  turnsOf 2 ([.Look 0 0, .Look 1 0, .Stop, .Go] ++ removeOne ++ removeOne ++ [.Go])

theorem kick_passed_on_caught :
    ∃ p p' p'', Run (ticking.StepIf visitsNew) quietServer caughtTurns p ∧
      ticking.StepIf visitsNew p (.Next 2 .Go) p' ∧
      Run (ticking.StepIf visitsNew) p' removeBoth p'' ∧
      2 ∈ p.shared.state.disconnectQueue ∧ 2 ∉ p'.shared.state.disconnectQueue ∧
      p''.tasks[2]? = some (.Clean (.Done [2, 1])) ∧
      ∃ walk, p.tasks[2]? = some (.Clean (.Clear walk)) ∧ 2 ∈ walk.clientsToRemove := by
  have hplay : ((quietServer.play ticking visitsNew caughtTurns).any fun p =>
      decide (2 ∈ p.shared.state.disconnectQueue) &&
      (p.play ticking visitsNew [.Next 2 .Go]).any fun p' =>
        decide (2 ∉ p'.shared.state.disconnectQueue) &&
        (p'.play ticking visitsNew removeBoth).any fun p'' =>
          (p''.tasks[2]?).elim false (·.passed [2, 1])) = true := by
    decide +kernel
  obtain ⟨p, hbefore, hseen⟩ := Pool.exists_run hplay
  simp only [Bool.and_eq_true, decide_eq_true_eq] at hseen
  obtain ⟨hqueued, hclear⟩ := hseen
  obtain ⟨p', hstep, hseen⟩ := Pool.exists_run hclear
  simp only [Bool.and_eq_true, decide_eq_true_eq] at hseen
  obtain ⟨hgone, hrest⟩ := hseen
  obtain ⟨p'', hafter, hseen⟩ := Pool.exists_run hrest
  cases hstep with
  | Step hstep hdone =>
      cases hdone
      obtain ⟨place, choice, walk, hturn, hplace, hlisted, -⟩ :=
        kick_passed_on hstep hafter hqueued hgone
      cases hturn
      refine ⟨p, p', p'', hbefore, hstep, hafter, hqueued, hgone, ?_, walk, hplace, hlisted⟩
      cases ht : p''.tasks[2]? with
      | none =>
          rw [ht] at hseen
          cases hseen
      | some t =>
          rw [ht] at hseen
          rw [Work.passed_iff.mp hseen]

-- The kick comes after the walk and before the queue is cleared.
def lostTurns : List (Turn Choice Work) :=
  [.Start (.Kick 2 .Anticheat), .Start (.Clean .Begin), .Next 1 .Go, .Next 1 .Stop, .Next 0 .Go,
    .Next 1 .Go, .Next 1 (.Look 0 0), .Next 1 (.Look 1 0), .Next 1 .Stop, .Next 1 .Go, .Next 1 .Go]

theorem kick_lost :
    ∃ p, Run ticking.Step quietServer lostTurns p ∧
      .Kicked 2 true ∈ p.tasks ∧ .Clean (.Done []) ∈ p.tasks ∧
      2 ∉ p.shared.state.disconnectQueue ∧ 2 ∈ p.shared.state.clients := by
  have hplay : ((quietServer.play ticking (fun _ _ => true) lostTurns).any fun p =>
      p.tasks.any (·.kicked 2) && p.tasks.any (·.passed []) &&
      decide (2 ∉ p.shared.state.disconnectQueue) && decide (2 ∈ p.shared.state.clients)) = true := by
    decide +kernel
  obtain ⟨p, hrun, hseen⟩ := Pool.exists_run hplay
  simp only [Bool.and_eq_true, List.any_eq_true, decide_eq_true_eq, Work.kicked_iff,
    Work.passed_iff] at hseen
  obtain ⟨⟨⟨⟨t, hkicked, rfl⟩, u, hdone, rfl⟩, hgone⟩, hclient⟩ := hseen
  exact ⟨p, Tasks.run_step hrun, hkicked, hdone, hgone, hclient⟩

end Mumble
