import Mumble.Lib.Run

namespace Mumble.Lib

-- Tasks that work on one shared state. They take turns, and nothing is said about
-- whose turn is next.
structure Pool (σ τ : Type) where
  shared : σ
  tasks : List τ

-- A task is started, or the task at a place makes its next step. The choice is
-- what the step leaves to the environment.
inductive Turn (γ τ : Type) where
  | Start (task : τ)
  | Next (place : Nat) (choice : γ)

-- The atomic steps of the tasks, and which tasks may be started. A task that has
-- ended or is waiting has no next step.
structure Tasks (σ γ τ : Type) where
  next : σ → γ → τ → Option (σ × τ)
  starts : Pool σ τ → τ → Bool

section

variable {σ γ τ : Type} (T : Tasks σ γ τ)

def Pool.turn (p : Pool σ τ) : Turn γ τ → Option (Pool σ τ)
  | .Start t => if T.starts p t then some ⟨p.shared, p.tasks ++ [t]⟩ else none
  | .Next place choice =>
      match p.tasks[place]? with
      | some t => (T.next p.shared choice t).map fun next => ⟨next.1, p.tasks.set place next.2⟩
      | none => none

-- A turn of the pool.
def Tasks.Step (p : Pool σ τ) (turn : Turn γ τ) (p' : Pool σ τ) : Prop := p.turn T turn = some p'

-- A turn that is taken under a condition.
def Tasks.StepIf (ok : Pool σ τ → Turn γ τ → Bool) (p : Pool σ τ) (turn : Turn γ τ)
    (p' : Pool σ τ) : Prop := T.Step p turn p' ∧ ok p turn = true

-- The turns of a schedule one after the other, as long as they meet the condition.
def Pool.play (ok : Pool σ τ → Turn γ τ → Bool) (p : Pool σ τ) :
    List (Turn γ τ) → Option (Pool σ τ)
  | [] => some p
  | turn :: turns => if ok p turn then (p.turn T turn).bind fun p => p.play ok turns else none

end

variable {σ γ τ : Type} {T : Tasks σ γ τ}

theorem Pool.run_play {ok : Pool σ τ → Turn γ τ → Bool} {p p' : Pool σ τ}
    {turns : List (Turn γ τ)} (h : p.play T ok turns = some p') :
    Run (T.StepIf ok) p turns p' := by
  induction turns generalizing p with
  | nil =>
      cases h
      exact .Done _
  | cons turn turns ih =>
      simp only [Pool.play] at h
      split_ifs at h with hok
      obtain ⟨next, hnext, hrest⟩ := Option.bind_eq_some_iff.mp h
      exact .Step ⟨hnext, hok⟩ (ih hrest)

-- A schedule that can be played, and what is seen at its end.
theorem Pool.exists_run {ok : Pool σ τ → Turn γ τ → Bool} {p : Pool σ τ}
    {turns : List (Turn γ τ)} {seen : Pool σ τ → Bool}
    (h : (p.play T ok turns).any seen = true) :
    ∃ p', Run (T.StepIf ok) p turns p' ∧ seen p' = true := by
  cases hplay : p.play T ok turns with
  | none =>
      rw [hplay] at h
      cases h
  | some p' =>
      rw [hplay] at h
      exact ⟨p', run_play hplay, h⟩

theorem exists_place {tasks : List τ} {place : Nat} {t : τ} (h : tasks[place]? = some t) :
    ∃ before after, tasks = before ++ t :: after ∧ place = before.length := by
  obtain ⟨hplace, rfl⟩ := List.getElem?_eq_some_iff.mp h
  exact ⟨tasks.take place, tasks.drop (place + 1), by simp, by simp; omega⟩

theorem getElem?_place (before : List τ) (t : τ) (after : List τ) :
    (before ++ t :: after)[before.length]? = some t := by
  rw [List.getElem?_append_right (Nat.le_refl _), Nat.sub_self, List.getElem?_cons_zero]

theorem two_places {before after : List τ} {t a b : τ}
    (h : before ++ t :: after = [a, b]) :
    before = [] ∧ t = a ∧ after = [b] ∨ before = [a] ∧ t = b ∧ after = [] := by
  rcases before with - | ⟨first, - | ⟨second, before⟩⟩
  · cases h
    exact .inl ⟨rfl, rfl, rfl⟩
  · cases h
    exact .inr ⟨rfl, rfl, rfl⟩
  · simp at h

namespace Tasks

theorem next_place (s : σ) (before : List τ) (t : τ) (after : List τ) (choice : γ) :
    (Pool.mk s (before ++ t :: after)).turn T (.Next before.length choice) =
      (T.next s choice t).map fun next => ⟨next.1, before ++ next.2 :: after⟩ := by
  simp only [Pool.turn, getElem?_place, List.set_append_right _ _ (Nat.le_refl _), Nat.sub_self,
    List.set_cons_zero]

-- What a turn can do: a new task goes to the end, or one task steps where it is.
theorem step_cases {p p' : Pool σ τ} {turn : Turn γ τ} (h : T.Step p turn p') :
    (∃ t, turn = .Start t ∧ T.starts p t = true ∧ p' = ⟨p.shared, p.tasks ++ [t]⟩) ∨
    ∃ before t after choice s t', turn = .Next before.length choice ∧
      p = ⟨p.shared, before ++ t :: after⟩ ∧ T.next p.shared choice t = some (s, t') ∧
      p' = ⟨s, before ++ t' :: after⟩ := by
  obtain ⟨shared, tasks⟩ := p
  cases turn with
  | Start t =>
      simp only [Step, Pool.turn] at h
      split_ifs at h with hstarts
      exact .inl ⟨t, rfl, hstarts, (Option.some.inj h).symm⟩
  | Next place choice =>
      cases hplace : tasks[place]? with
      | none => simp [Step, Pool.turn, hplace] at h
      | some t =>
          obtain ⟨before, after, rfl, rfl⟩ := exists_place hplace
          rw [Step, next_place] at h
          obtain ⟨⟨s, t'⟩, hnext, hp⟩ := Option.map_eq_some_iff.mp h
          exact .inr ⟨before, t, after, choice, s, t', rfl, rfl, hnext, hp.symm⟩

-- The rule for invariants of the pool: starting a task keeps it, and so does a step
-- of a task among the others.
theorem invariant {I : Pool σ τ → Prop} {ok : Pool σ τ → Turn γ τ → Bool}
    (hstart : ∀ {s tasks t}, I ⟨s, tasks⟩ → T.starts ⟨s, tasks⟩ t = true →
      ok ⟨s, tasks⟩ (.Start t) = true → I ⟨s, tasks ++ [t]⟩)
    (hnext : ∀ {s before t after choice s' t'}, I ⟨s, before ++ t :: after⟩ →
      T.next s choice t = some (s', t') →
      ok ⟨s, before ++ t :: after⟩ (.Next before.length choice) = true →
      I ⟨s', before ++ t' :: after⟩)
    {p p' : Pool σ τ} {turns : List (Turn γ τ)} (hrun : Run (T.StepIf ok) p turns p') (hp : I p) :
    I p' := by
  refine Run.invariant (P := fun _ => True) ?_ hrun (fun _ _ => trivial) hp
  intro p turn p' _ hp hstep
  obtain ⟨hstep, hok⟩ := hstep
  rcases step_cases hstep with ⟨t, rfl, hstarts, rfl⟩ |
    ⟨before, t, after, choice, s, t', rfl, hpool, hgo, rfl⟩
  · exact hstart hp hstarts hok
  · rw [hpool] at hp hok
    exact hnext hp hgo hok

-- A task keeps its place. What its own steps keep is kept for good.
theorem place_invariant {P : τ → Prop} {place : Nat}
    (hnext : ∀ {s choice t s' t'}, P t → T.next s choice t = some (s', t') → P t')
    {p p' : Pool σ τ} {turns : List (Turn γ τ)} (hrun : Run T.Step p turns p')
    (hp : ∃ t, p.tasks[place]? = some t ∧ P t) : ∃ t, p'.tasks[place]? = some t ∧ P t := by
  refine Run.invariant (I := fun p => ∃ t, p.tasks[place]? = some t ∧ P t) (P := fun _ => True)
    ?_ hrun (fun _ _ => trivial) hp
  rintro p turn p' - ⟨t, hplace, ht⟩ hstep
  rcases step_cases hstep with ⟨u, rfl, -, rfl⟩ |
    ⟨before, u, after, choice, s, u', rfl, hpool, hgo, rfl⟩
  · refine ⟨t, ?_, ht⟩
    obtain ⟨hlt, -⟩ := List.getElem?_eq_some_iff.mp hplace
    rwa [List.getElem?_append_left hlt]
  · rw [hpool] at hplace
    by_cases hself : place = before.length
    · subst hself
      simp only [getElem?_place, Option.some.injEq] at hplace
      subst hplace
      exact ⟨u', getElem?_place _ _ _, hnext ht hgo⟩
    · refine ⟨t, ?_, ht⟩
      have hset : before ++ u' :: after = (before ++ u :: after).set before.length u' := by simp
      rw [hset, List.getElem?_set_ne (Ne.symm hself)]
      exact hplace

theorem run_step {ok : Pool σ τ → Turn γ τ → Bool} {p p' : Pool σ τ} {turns : List (Turn γ τ)}
    (hrun : Run (T.StepIf ok) p turns p') : Run T.Step p turns p' := by
  induction hrun with
  | Done p => exact .Done p
  | Step hstep _ ih => exact .Step hstep.1 ih

theorem run_always {p p' : Pool σ τ} {turns : List (Turn γ τ)} (hrun : Run T.Step p turns p') :
    Run (T.StepIf fun _ _ => true) p turns p' := by
  induction hrun with
  | Done p => exact .Done p
  | Step hstep _ ih => exact .Step ⟨hstep, rfl⟩ ih

end Tasks

-- A task that is left alone gets from one point to another, for some choices.
def Alone (next : σ → γ → τ → Option (σ × τ)) (x x' : σ × τ) : Prop :=
  ∃ choices, Run (fun x choice x' => next x.1 choice x.2 = some x') x choices x'

namespace Alone

variable {next : σ → γ → τ → Option (σ × τ)} {x x' x'' : σ × τ}

theorem refl (x : σ × τ) : Alone next x x := ⟨[], .Done x⟩

theorem step (choice : γ) (h : next x.1 choice x.2 = some x') (h' : Alone next x' x'') :
    Alone next x x'' := by
  obtain ⟨choices, hrun⟩ := h'
  exact ⟨choice :: choices, .Step h hrun⟩

theorem trans (h : Alone next x x') (h' : Alone next x' x'') : Alone next x x'' := by
  obtain ⟨choices, hrun⟩ := h
  obtain ⟨choices', hrun'⟩ := h'
  exact ⟨choices ++ choices', hrun.append hrun'⟩

-- An operation that is part of another one, as long as what the other one relies on
-- is kept.
theorem within {σ' τ' : Type} {next' : σ' → γ → τ' → Option (σ' × τ')} {I : σ × τ → Prop}
    (f : σ × τ → σ' × τ')
    (hf : ∀ x choice x', I x → next x.1 choice x.2 = some x' →
      I x' ∧ next' (f x).1 choice (f x).2 = some (f x'))
    (h : Alone next x x') (hx : I x) : Alone next' (f x) (f x') := by
  obtain ⟨choices, hrun⟩ := h
  refine ⟨choices, ?_⟩
  induction hrun with
  | Done x => exact .Done _
  | Step hstep _ ih =>
      obtain ⟨hnext, hstep⟩ := hf _ _ _ hx hstep
      exact .Step hstep (ih hnext)

-- What a task does alone it also does among others that wait.
theorem run (h : Alone T.next x x') (before after : List τ) :
    ∃ turns, Run T.Step ⟨x.1, before ++ x.2 :: after⟩ turns ⟨x'.1, before ++ x'.2 :: after⟩ := by
  obtain ⟨choices, hrun⟩ := h
  refine ⟨choices.map fun choice => .Next before.length choice, ?_⟩
  induction hrun with
  | Done x => exact .Done _
  | Step hstep _ ih =>
      refine .Step ?_ ih
      rw [Tasks.Step, Tasks.next_place, hstep]
      rfl

end Alone

theorem mem_of_mem_others {before after : List τ} {t u : τ} (h : u ∈ before ++ after) :
    u ∈ before ++ t :: after := by
  rcases List.mem_append.mp h with hbefore | hafter
  · exact List.mem_append_left _ hbefore
  · exact List.mem_append_right _ (List.mem_cons_of_mem _ hafter)

-- A property of every task, when one task has stepped and the others have not.
theorem forall_mem_stepped {P Q : τ → Prop} {before after : List τ} {t t' : τ}
    (hall : ∀ u ∈ before ++ t :: after, P u) (hothers : ∀ u ∈ before ++ after, P u → Q u)
    (ht : Q t') : ∀ u ∈ before ++ t' :: after, Q u := by
  intro u hu
  have hstays : u ∈ before ++ after → Q u := fun hu => hothers u hu (hall u (mem_of_mem_others hu))
  rcases List.mem_append.mp hu with hbefore | hrest
  · exact hstays (List.mem_append_left _ hbefore)
  · rcases List.mem_cons.mp hrest with rfl | hafter
    · exact ht
    · exact hstays (List.mem_append_right _ hafter)

theorem forall_mem_started {P : τ → Prop} {tasks : List τ} {t : τ} (hall : ∀ u ∈ tasks, P u)
    (ht : P t) : ∀ u ∈ tasks ++ [t], P u := by
  intro u hu
  rcases List.mem_append.mp hu with hold | hnew
  · exact hall u hold
  · rw [List.mem_singleton.mp hnew]
    exact ht

theorem countP_place (f : τ → Bool) (before : List τ) (t : τ) (after : List τ) :
    (before ++ t :: after).countP f = (before ++ after).countP f + if f t then 1 else 0 := by
  simp only [List.countP_append, List.countP_cons]
  omega

theorem countP_le_stepped {f : τ → Bool} {t t' : τ} (h : f t = true → f t' = true)
    (before after : List τ) :
    (before ++ t :: after).countP f ≤ (before ++ t' :: after).countP f := by
  rw [countP_place, countP_place]
  cases ht : f t with
  | true => simp [h ht]
  | false => simp

-- No two tasks have the same thing: a lock, a client, an id.
def Exclusive {κ : Type} (f : τ → Option κ) (tasks : List τ) : Prop := (tasks.filterMap f).Nodup

section

variable {κ : Type} {f : τ → Option κ} {before after tasks : List τ} {t t' : τ}

theorem exclusive_cons :
    Exclusive f (t :: tasks) ↔
      (∀ k, f t = some k → ∀ u ∈ tasks, f u ≠ some k) ∧ Exclusive f tasks := by
  unfold Exclusive
  cases ht : f t with
  | none => simp [List.filterMap_cons_none ht]
  | some k =>
      rw [List.filterMap_cons_some ht, List.nodup_cons, List.mem_filterMap]
      simp

theorem exclusive_append :
    Exclusive f (before ++ t :: after) ↔
      (∀ k, f t = some k → ∀ u ∈ before ++ after, f u ≠ some k) ∧
        Exclusive f (before ++ after) := by
  have hperm : (before ++ t :: after).Perm (t :: (before ++ after)) := List.perm_middle
  rw [← exclusive_cons]
  exact (hperm.filterMap f).nodup_iff

theorem Exclusive.mono {g : τ → Option κ} (h : Exclusive g tasks)
    (hfg : ∀ t k, f t = some k → g t = some k) : Exclusive f tasks := by
  induction tasks with
  | nil => exact List.nodup_nil
  | cons t tasks ih =>
      obtain ⟨hhead, htail⟩ := exclusive_cons.mp h
      refine exclusive_cons.mpr ⟨fun k hk u hu huk => ?_, ih htail⟩
      exact hhead k (hfg t k hk) u hu (hfg u k huk)

-- A task that steps may keep what it has, or take what no other task has.
theorem Exclusive.stepped (h : Exclusive f (before ++ t :: after))
    (hnew : ∀ k, f t' = some k → f t = some k ∨ ∀ u ∈ before ++ after, f u ≠ some k) :
    Exclusive f (before ++ t' :: after) := by
  obtain ⟨hold, hothers⟩ := exclusive_append.mp h
  refine exclusive_append.mpr ⟨fun k hk => ?_, hothers⟩
  rcases hnew k hk with hhad | hfree
  · exact hold k hhad
  · exact hfree

theorem Exclusive.started (h : Exclusive f tasks)
    (hnew : ∀ k, f t = some k → ∀ u ∈ tasks, f u ≠ some k) : Exclusive f (tasks ++ [t]) := by
  refine exclusive_append.mpr ⟨?_, ?_⟩
  · rwa [List.append_nil]
  · rwa [List.append_nil]

end

end Mumble.Lib
