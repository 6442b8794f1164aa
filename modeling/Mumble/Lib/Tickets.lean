import Mathlib.Data.Finset.Card
import Mumble.Lib.Pool

namespace Mumble.Lib

-- Tasks that each need an id which nobody uses. A task takes one from a shared counter,
-- looks whether it is in use, and takes another one if it is. Only later does it enter the
-- id among those in use, so that nothing but the counter keeps two tasks apart meanwhile.

inductive Ticket (α : Type) where
  -- needs no id, or not yet
  | None
  | Waiting
  | Taken (id : α)
  -- the id was not in use
  | Granted (id : α)
  | Entered (id : α)

namespace Ticket

variable {α : Type}

def id : Ticket α → Option α
  | .Taken id | .Granted id | .Entered id => some id
  | _ => none

-- The id that the search ended at.
def handed : Ticket α → Option α
  | .Granted id | .Entered id => some id
  | _ => none

def wants : Ticket α → Bool
  | .None => false
  | _ => true

-- A step of one task, with the value of the counter and what is in use before and after it.
-- Any step may also put ids out of use.
inductive Step (next : α → α) (used used' : Set α) (count : α) : α → Ticket α → Ticket α → Prop where
  | Stay (t : Ticket α) : used' ⊆ used → Step next used used' count count t t
  | Begin : used' ⊆ used → Step next used used' count count .None .Waiting
  | Take : used' ⊆ used → Step next used used' count (next count) .Waiting (.Taken count)
  | Skip {id : α} : used' ⊆ used → id ∈ used → Step next used used' count count (.Taken id) .Waiting
  | Grant {id : α} : used' ⊆ used → id ∉ used →
      Step next used used' count count (.Taken id) (.Granted id)
  | Enter {id : α} : used' ⊆ insert id used →
      Step next used used' count count (.Granted id) (.Entered id)

end Ticket

section

variable {α σ γ τ : Type} {T : Tasks σ γ τ} {next : α → α} {count : σ → α} {used : σ → Set α}
  {ticket : τ → Ticket α}

-- The tasks of a pool get their ids like this.
structure Tasks.Draws (T : Tasks σ γ τ) (next : α → α) (count : σ → α) (used : σ → Set α)
    (ticket : τ → Ticket α) : Prop where
  starts : ∀ {p t}, T.starts p t = true → (ticket t).id = none
  step : ∀ {s choice t s' t'}, T.next s choice t = some (s', t') →
    Ticket.Step next (used s) (used s') (count s) (count s') (ticket t) (ticket t')

-- The values that the counter gives from `c` on.
def drawn (next : α → α) (c : α) (n : Nat) : List α := (List.range n).map fun i => next^[i] c

theorem length_drawn (c : α) (n : Nat) : (drawn next c n).length = n := by simp [drawn]

theorem drawn_succ (c : α) (n : Nat) : drawn next c (n + 1) = drawn next c n ++ [next^[n] c] := by
  simp [drawn, List.range_succ]

theorem nodup_drawn {c : α} {period n : Nat} (hcycle : (drawn next c period).Nodup)
    (hn : n ≤ period) : (drawn next c n).Nodup :=
  hcycle.sublist ((List.range_sublist.mpr hn).map _)

theorem perm_filterMap_place (f : τ → Option α) (before : List τ) (t : τ) (after : List τ) :
    ((before ++ t :: after).filterMap f).Perm
      ((f t).toList ++ (before ++ after).filterMap f) := by
  have hperm : (before ++ t :: after).Perm (t :: (before ++ after)) := List.perm_middle
  refine (hperm.filterMap f).trans ?_
  cases ht : f t with
  | none => rw [List.filterMap_cons_none ht, Option.toList_none, List.nil_append]
  | some x => rw [List.filterMap_cons_some ht, Option.toList_some, List.singleton_append]

-- The ids are what was taken from the counter since it was at `c`, without those that were
-- skipped. Only ids that were in use at the start are skipped.
def Accounted (next : α → α) (c : α) (initial : Finset α) (period : Nat) (count : α)
    (ids : List α) : Prop :=
  ∃ n skipped, n ≤ period ∧ count = next^[n] c ∧ (∀ x ∈ skipped, x ∈ initial) ∧
    (ids ++ skipped).Perm (drawn next c n)

namespace Accounted

variable {c value : α} {initial : Finset α} {period : Nat} {ids ids' : List α}

theorem start (c : α) (initial : Finset α) (period : Nat) :
    Accounted next c initial period c [] :=
  ⟨0, [], Nat.zero_le _, rfl, by simp, by simp [drawn]⟩

theorem perm (h : Accounted next c initial period value ids) (hperm : ids'.Perm ids) :
    Accounted next c initial period value ids' := by
  obtain ⟨n, skipped, hn, hc, hskipped, hdrawn⟩ := h
  exact ⟨n, skipped, hn, hc, hskipped, (hperm.append_right skipped).trans hdrawn⟩

theorem nodup (h : Accounted next c initial period value ids)
    (hcycle : (drawn next c period).Nodup) : ids.Nodup := by
  obtain ⟨n, skipped, hn, -, -, hdrawn⟩ := h
  exact (hdrawn.nodup_iff.mpr (nodup_drawn hcycle hn)).of_append_left

-- The counter has not come round as long as it has more values than there are ids in use at
-- the start and ids taken.
theorem take (h : Accounted next c initial period value ids)
    (hcycle : (drawn next c period).Nodup) (hfew : initial.card + ids.length < period) :
    Accounted next c initial period (next value) (value :: ids) := by
  obtain ⟨n, skipped, hn, rfl, hskipped, hdrawn⟩ := h
  have hnodup : skipped.Nodup := (hdrawn.nodup_iff.mpr (nodup_drawn hcycle hn)).of_append_right
  have hcard : skipped.length ≤ initial.card := by
    classical
    rw [← List.toFinset_card_of_nodup hnodup]
    exact Finset.card_le_card fun x hx => hskipped x (List.mem_toFinset.mp hx)
  have hlength := hdrawn.length_eq
  rw [List.length_append, length_drawn] at hlength
  refine ⟨n + 1, skipped, by omega, (Function.iterate_succ_apply' ..).symm, hskipped, ?_⟩
  rw [drawn_succ, List.cons_append]
  exact (hdrawn.cons _).trans (List.perm_append_singleton _ _).symm

theorem skip {x : α} (h : Accounted next c initial period value (x :: ids)) (hx : x ∈ initial) :
    Accounted next c initial period value ids := by
  obtain ⟨n, skipped, hn, hc, hskipped, hdrawn⟩ := h
  refine ⟨n, x :: skipped, hn, hc, ?_, List.perm_middle.trans hdrawn⟩
  intro y hy
  rcases List.mem_cons.mp hy with rfl | hold
  · exact hx
  · exact hskipped y hold

end Accounted

-- What holds of a pool while its tasks draw ids.
structure Drawing (next : α → α) (count : σ → α) (used : σ → Set α) (ticket : τ → Ticket α) (c : α)
    (initial : Finset α) (period : Nat) (p : Pool σ τ) : Prop where
  taken : Accounted next c initial period (count p.shared)
    (p.tasks.filterMap fun t => (ticket t).id)
  entered : ∀ x ∈ used p.shared, x ∈ initial ∨ ∃ t ∈ p.tasks, ticket t = .Entered x
  granted : ∀ t ∈ p.tasks, ∀ x, ticket t = .Granted x → x ∉ used p.shared

namespace Drawing

variable {c : α} {initial : Finset α} {period : Nat} {p : Pool σ τ} {s s' : σ}
  {before after : List τ} {t t' : τ}

theorem entered_stepped (h : Drawing next count used ticket c initial period ⟨s, before ++ t :: after⟩)
    (hkeeps : ∀ x, ticket t = .Entered x → ticket t' = .Entered x)
    (hused : ∀ x ∈ used s', x ∈ used s ∨ ticket t' = .Entered x) :
    ∀ x ∈ used s', x ∈ initial ∨ ∃ u ∈ before ++ t' :: after, ticket u = .Entered x := by
  intro x hx
  rcases hused x hx with hold | hnew
  · rcases h.entered x hold with hinitial | ⟨u, hu, hentered⟩
    · exact .inl hinitial
    · rcases List.mem_append.mp hu with hbefore | hrest
      · exact .inr ⟨u, List.mem_append_left _ hbefore, hentered⟩
      · rcases List.mem_cons.mp hrest with rfl | hafter
        · exact .inr ⟨t', by simp, hkeeps x hentered⟩
        · exact .inr ⟨u, by simp [hafter], hentered⟩
  · exact .inr ⟨t', by simp, hnew⟩

theorem granted_stepped (h : Drawing next count used ticket c initial period ⟨s, before ++ t :: after⟩)
    (hcycle : (drawn next c period).Nodup)
    (hused : ∀ x ∈ used s', x ∈ used s ∨ (ticket t).id = some x)
    (hself : ∀ x, ticket t' = .Granted x → x ∉ used s') :
    ∀ u ∈ before ++ t' :: after, ∀ x, ticket u = .Granted x → x ∉ used s' := by
  have hexclusive : Exclusive (fun t => (ticket t).id) (before ++ t :: after) :=
    h.taken.nodup hcycle
  have hothers := (exclusive_append.mp hexclusive).1
  refine forall_mem_stepped h.granted (fun u hu hold x hx hin => ?_) hself
  rcases hused x hin with hwas | hown
  · exact hold x hx hwas
  · exact hothers x hown u hu (by rw [hx]; rfl)

-- Only an id that was in use from the start is skipped: what the tasks have entered since was
-- taken from the counter, and so the task cannot have it as well.
theorem initial_of_skip (h : Drawing next count used ticket c initial period ⟨s, before ++ t :: after⟩)
    (hcycle : (drawn next c period).Nodup) {x : α} (ht : ticket t = .Taken x) (hx : x ∈ used s) :
    x ∈ initial := by
  have hexclusive : Exclusive (fun t => (ticket t).id) (before ++ t :: after) :=
    h.taken.nodup hcycle
  have hothers := (exclusive_append.mp hexclusive).1
  rcases h.entered x hx with hinitial | ⟨u, hu, hentered⟩
  · exact hinitial
  · refine absurd ?_ (hothers x (by rw [ht]; rfl) u ?_)
    · rw [hentered]
      rfl
    · rcases List.mem_append.mp hu with hbefore | hrest
      · exact List.mem_append_left _ hbefore
      · rcases List.mem_cons.mp hrest with rfl | hafter
        · rw [ht] at hentered
          cases hentered
        · exact List.mem_append_right _ hafter

-- A task without an id is one more than those that have one.
theorem length_ids_lt {ticket : τ → Ticket α} {t : τ} (ht : ticket t = .Waiting)
    (before after : List τ) :
    ((before ++ after).filterMap fun t => (ticket t).id).length <
      (before ++ t :: after).countP fun t => (ticket t).wants := by
  have hothers : ((before ++ after).filterMap fun t => (ticket t).id).length ≤
      (before ++ after).countP fun t => (ticket t).wants := by
    rw [List.length_filterMap_eq_countP]
    refine List.countP_mono_left fun u _ hu => ?_
    cases hticket : ticket u with
    | None =>
        rw [hticket] at hu
        cases hu
    | _ => rfl
  rw [countP_place, ht]
  exact Nat.lt_succ_of_le hothers

theorem stepped (h : Drawing next count used ticket c initial period ⟨s, before ++ t :: after⟩)
    (hcycle : (drawn next c period).Nodup)
    (hfew : initial.card + (before ++ t :: after).countP (fun t => (ticket t).wants) ≤ period)
    (hstep : Ticket.Step next (used s) (used s') (count s) (count s') (ticket t) (ticket t')) :
    Drawing next count used ticket c initial period ⟨s', before ++ t' :: after⟩ := by
  have htaken := h.taken
  have hplace := perm_filterMap_place (fun t => (ticket t).id) before t after
  have hplace' := perm_filterMap_place (fun t => (ticket t).id) before t' after
  generalize hvalue : count s' = value at hstep
  generalize hticket : ticket t = u at hstep hplace
  generalize hticket' : ticket t' = u' at hstep hplace'
  -- a step that neither takes an id nor gives one back
  have hsame : u'.id = u.id → Accounted next c initial period (count s)
      ((before ++ t' :: after).filterMap fun t => (ticket t).id) := by
    intro hid
    rw [hid] at hplace'
    exact htaken.perm (hplace'.trans hplace.symm)
  -- a step that enters nothing
  have hfewer : used s' ⊆ used s → (∀ x, u = .Entered x → u' = .Entered x) →
      (∀ x, u' = .Granted x → x ∉ used s) →
      Accounted next c initial period value
        ((before ++ t' :: after).filterMap fun t => (ticket t).id) →
      Drawing next count used ticket c initial period ⟨s', before ++ t' :: after⟩ := by
    intro hused hkeeps hfree htaken'
    exact {
      taken := by rwa [hvalue]
      entered := h.entered_stepped (by rwa [hticket, hticket']) fun x hx => .inl (hused hx)
      granted := h.granted_stepped hcycle (fun x hx => .inl (hused hx)) fun x hx hin =>
        hfree x (hticket'.symm.trans hx) (hused hin) }
  cases hstep with
  | Stay _ hused =>
      refine hfewer hused (fun _ hx => hx) (fun x hx => ?_) (hsame rfl)
      exact h.granted t (by simp) x (hticket.trans hx)
  | Begin hused => exact hfewer hused nofun nofun (hsame rfl)
  | Take hused =>
      refine hfewer hused nofun nofun ?_
      have hothers := htaken.perm hplace.symm
      exact (hothers.take hcycle (Nat.lt_of_lt_of_le (Nat.add_lt_add_left
        (length_ids_lt hticket before after) _) hfew)).perm hplace'
  | Skip hused hin =>
      refine hfewer hused nofun nofun ?_
      exact ((htaken.perm hplace.symm).skip (h.initial_of_skip hcycle hticket hin)).perm hplace'
  | Grant hused hfree =>
      refine hfewer hused nofun (fun x hx => ?_) (hsame rfl)
      cases hx
      exact hfree
  | Enter hused =>
      have hentered : ∀ x ∈ used s', x ∈ used s ∨ x = _ := fun x hx => (hused hx).symm
      exact {
        taken := by
          rw [hvalue]
          exact hsame rfl
        entered := by
          refine h.entered_stepped (by rw [hticket]; nofun) fun x hx => ?_
          rcases hentered x hx with hold | rfl
          · exact .inl hold
          · exact .inr hticket'
        granted := by
          refine h.granted_stepped hcycle (fun x hx => ?_) (by rw [hticket']; nofun)
          rcases hentered x hx with hold | rfl
          · exact .inl hold
          · exact .inr (by rw [hticket]; rfl) }

theorem started (h : Drawing next count used ticket c initial period p)
    (ht : (ticket t).id = none) :
    Drawing next count used ticket c initial period ⟨p.shared, p.tasks ++ [t]⟩ where
  taken := by
    refine h.taken.perm ?_
    have hplace := perm_filterMap_place (fun t => (ticket t).id) p.tasks t []
    rwa [ht, Option.toList_none, List.nil_append, List.append_nil] at hplace
  entered := by
    intro x hx
    rcases h.entered x hx with hinitial | ⟨u, hu, hentered⟩
    · exact .inl hinitial
    · exact .inr ⟨u, List.mem_append_left _ hu, hentered⟩
  granted := by
    refine forall_mem_started h.granted fun x hx => ?_
    rw [hx] at ht
    cases ht

end Drawing

theorem Ticket.Step.wants {used used' : Set α} {value value' : α} {u u' : Ticket α}
    (h : Ticket.Step next used used' value value' u u') (hwants : u.wants = true) :
    u'.wants = true := by
  cases h with
  | Stay => exact hwants
  | _ => rfl

namespace Tasks.Draws

variable {initial : Finset α} {period : Nat} {p : Pool σ τ} {s : σ} {turns : List (Turn γ τ)}

theorem drawing_run (hdraws : T.Draws next count used ticket) (hrun : Run T.Step ⟨s, []⟩ turns p)
    (hcycle : (drawn next (count s) period).Nodup) (hused : ∀ x ∈ used s, x ∈ initial)
    (hfew : initial.card + p.tasks.countP (fun t => (ticket t).wants) ≤ period) :
    Drawing next count used ticket (count s) initial period p := by
  -- the tasks that want an id only get more, and so few of them at the end were few all along
  refine Tasks.invariant (T := T)
    (I := fun p => initial.card + p.tasks.countP (fun t => (ticket t).wants) ≤ period →
      Drawing next count used ticket (count s) initial period p)
    ?_ ?_ (Tasks.run_always hrun) ?_ hfew
  · intro s tasks t hI hstarts _ hfew
    rw [List.countP_append] at hfew
    exact (hI (by dsimp only; omega)).started (hdraws.starts hstarts)
  · intro s before t after choice s' t' hI hnext _ hfew
    have hstep := hdraws.step hnext
    have hmore := countP_le_stepped (f := fun t => (ticket t).wants) hstep.wants before after
    have hfew' := Nat.le_trans (Nat.add_le_add_left hmore _) hfew
    exact (hI hfew').stepped hcycle hfew' hstep
  · intro _
    exact {
      taken := .start _ _ _
      entered := fun x hx => .inl (hused x hx)
      granted := nofun }

-- However the tasks take turns, no two are handed the same id, and an id that is handed out
-- but not yet entered is not in use.
theorem fresh (hdraws : T.Draws next count used ticket) (hrun : Run T.Step ⟨s, []⟩ turns p)
    (hcycle : (drawn next (count s) period).Nodup) (hused : ∀ x ∈ used s, x ∈ initial)
    (hfew : initial.card + p.tasks.countP (fun t => (ticket t).wants) ≤ period) :
    Exclusive (fun t => (ticket t).handed) p.tasks ∧
      ∀ t ∈ p.tasks, ∀ x, ticket t = .Granted x → x ∉ used p.shared := by
  have hdrawing := hdraws.drawing_run hrun hcycle hused hfew
  refine ⟨Exclusive.mono (hdrawing.taken.nodup hcycle) fun t x hx => ?_, hdrawing.granted⟩
  generalize ticket t = u at hx ⊢
  cases u with
  | Granted | Entered => exact hx
  | _ => cases hx

end Tasks.Draws

end

end Mumble.Lib
