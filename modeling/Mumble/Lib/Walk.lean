import Mathlib.Data.List.Nodup

namespace Mumble.Lib

-- A walk over the keys of a map that others may change. The keys come in any order. A
-- place that is empty when the walk goes past it is not looked at again.
structure Walk (κ : Type) where
  seen : List κ
  missed : List κ
  deriving DecidableEq

namespace Walk

def start {κ : Type} : Walk κ := ⟨[], []⟩

variable {κ : Type}

def visit (w : Walk κ) (k : κ) : Walk κ := { w with seen := w.seen ++ [k] }

def miss (w : Walk κ) (k : κ) : Walk κ := { w with missed := k :: w.missed }

section

variable [DecidableEq κ]

def passed (w : Walk κ) (k : κ) : Bool := decide (k ∈ w.seen) || decide (k ∈ w.missed)

-- The walk can come to this key next.
def reaches (w : Walk κ) (keys : List κ) (k : κ) : Bool := decide (k ∈ keys) && !w.passed k

-- Nothing is left to come to.
def complete (w : Walk κ) (keys : List κ) : Bool := keys.all w.passed

end

-- A walk over keys that have not changed since it began.
structure Of (w : Walk κ) (keys : List κ) : Prop where
  nodup : w.seen.Nodup
  seen : ∀ k ∈ w.seen, k ∈ keys
  missed : ∀ k ∈ w.missed, k ∉ keys

variable {w : Walk κ} {keys : List κ} {k : κ}

theorem Of.start (keys : List κ) : (Walk.start : Walk κ).Of keys :=
  ⟨List.nodup_nil, by simp [Walk.start], by simp [Walk.start]⟩

theorem Of.miss (h : w.Of keys) (hk : k ∉ keys) : (w.miss k).Of keys := by
  refine ⟨h.nodup, h.seen, ?_⟩
  intro k' hk'
  rcases List.mem_cons.mp hk' with rfl | hk'
  · exact hk
  · exact h.missed k' hk'

section

variable [DecidableEq κ]

theorem reaches_iff : w.reaches keys k = true ↔ k ∈ keys ∧ k ∉ w.seen ∧ k ∉ w.missed := by
  simp [reaches, passed]

theorem Of.visit (h : w.Of keys) (hk : w.reaches keys k = true) : (w.visit k).Of keys := by
  obtain ⟨hthere, hnew, -⟩ := reaches_iff.mp hk
  refine ⟨List.nodup_append.mpr ⟨h.nodup, List.nodup_singleton k, ?_⟩, ?_, h.missed⟩
  · intro k' hk' k'' hk''
    rw [List.mem_singleton.mp hk'']
    rintro rfl
    exact hnew hk'
  · intro k' hk'
    rcases List.mem_append.mp hk' with hk' | hk'
    · exact h.seen k' hk'
    · rw [List.mem_singleton.mp hk']
      exact hthere

-- It comes to every key once.
theorem Of.perm (h : w.Of keys) (hkeys : keys.Nodup) (hcomplete : w.complete keys = true) :
    w.seen.Perm keys := by
  refine (List.perm_ext_iff_of_nodup h.nodup hkeys).mpr fun k => ⟨h.seen k, fun hk => ?_⟩
  have hpassed : k ∈ w.seen ∨ k ∈ w.missed := by simpa [passed] using List.all_eq_true.mp hcomplete k hk
  rcases hpassed with hseen | hmissed
  · exact hseen
  · exact absurd hk (h.missed k hmissed)

end

end Walk

end Mumble.Lib
