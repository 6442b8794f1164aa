import Mathlib.Data.List.Basic

namespace Mumble.Lib

-- A run of a labelled transition relation, with the labels of its steps in order.
inductive Run {σ lab : Type} (step : σ → lab → σ → Prop) : σ → List lab → σ → Prop where
  | Done (s : σ) : Run step s [] s
  | Step {s s' s'' : σ} {l : lab} {ls : List lab} :
      step s l s' → Run step s' ls s'' → Run step s (l :: ls) s''

namespace Run

variable {σ lab : Type} {step : σ → lab → σ → Prop} {s s' s'' : σ} {l : lab} {ls ls' : List lab}

theorem single (h : step s l s') : Run step s [l] s' := .Step h (.Done s')

theorem append (h : Run step s ls s') (h' : Run step s' ls' s'') :
    Run step s (ls ++ ls') s'' := by
  induction h with
  | Done s => exact h'
  | Step hstep _ ih => exact .Step hstep (ih h')

theorem mono {step' : σ → lab → σ → Prop} (h : ∀ {s l s'}, step s l s' → step' s l s')
    (hrun : Run step s ls s') : Run step' s ls s' := by
  induction hrun with
  | Done s => exact .Done s
  | Step hfirst _ ih => exact .Step (h hfirst) ih

-- What holds at the start and is kept by every step with an admitted label holds
-- at the end.
theorem invariant {I : σ → Prop} {P : lab → Prop}
    (hstep : ∀ {s l s'}, P l → I s → step s l s' → I s') (hrun : Run step s ls s')
    (hlabels : ∀ l ∈ ls, P l) (hs : I s) : I s' := by
  induction hrun with
  | Done s => exact hs
  | Step hfirst _ ih =>
      have hnext := hstep (hlabels _ (List.mem_cons_self ..)) hs hfirst
      exact ih (fun l hl => hlabels l (List.mem_cons_of_mem _ hl)) hnext

-- As above, where what holds is said of the labels so far too.
theorem history {I : List lab → σ → Prop} (hstart : I [] s)
    (hstep : ∀ {ls s' l s''}, Run step s ls s' → I ls s' → step s' l s'' → I (ls ++ [l]) s'')
    (hrun : Run step s ls s') : I ls s' := by
  have hrest {before t} (hbefore : Run step s before t) (ht : I before t)
      {ls s'} (hrun : Run step t ls s') : I (before ++ ls) s' := by
    induction hrun generalizing before with
    | Done t => simpa using ht
    | Step hfirst _ ih =>
        have hnext := ih (hbefore.append (.single hfirst)) (hstep hbefore ht hfirst)
        rwa [List.append_assoc] at hnext
  exact hrest (.Done s) hstart hrun

theorem labels_of {P : lab → Prop} (h : ∀ {s l s'}, step s l s' → P l)
    (hrun : Run step s ls s') : ∀ l ∈ ls, P l := by
  induction hrun with
  | Done s => simp
  | Step hfirst _ ih => exact List.forall_mem_cons.mpr ⟨h hfirst, ih⟩

-- Where every step is matched by a step of another system with the same label, every run is
-- matched by a run.
theorem simulation {τ : Type} {step' : τ → lab → τ → Prop} {R : σ → τ → Prop} {t : τ}
    (hrun : Run step s ls s')
    (hstep : ∀ {s l s' t}, R s t → step s l s' → ∃ t', step' t l t' ∧ R s' t') (h : R s t) :
    ∃ t', Run step' t ls t' ∧ R s' t' := by
  induction hrun generalizing t with
  | Done s => exact ⟨t, .Done t, h⟩
  | Step hfirst _ ih =>
      obtain ⟨middle, hmatch, hmiddle⟩ := hstep h hfirst
      obtain ⟨t', hrest, hend⟩ := ih hmiddle
      exact ⟨t', .Step hmatch hrest, hend⟩

end Run

end Mumble.Lib
