import Mathlib.Data.List.Basic

namespace Mumble.Lib

-- A map that gives the last time a key was seen, from which old entries may be removed,
-- over what was seen and when.

variable {κ : Type} {span clock clock' now : Nat} {seen : List (Nat × κ)} {m m' : κ → Option Nat}

-- Everything seen is in the map at its time or a later one, unless it is older than the span.
def Covers (span clock : Nat) (seen : List (Nat × κ)) (m : κ → Option Nat) : Prop :=
  ∀ e ∈ seen, e.1 ≤ clock ∧ (span < clock - e.1 ∨ ∃ t, m e.2 = some t ∧ e.1 ≤ t)

namespace Covers

theorem nil : Covers span clock [] m := fun _ he => absurd he List.not_mem_nil

theorem later (h : Covers span clock seen m) (hclock : clock ≤ clock') :
    Covers span clock' seen m := by
  intro e he
  obtain ⟨hle, hold | hfound⟩ := h e he
  · exact ⟨by omega, .inl (by omega)⟩
  · exact ⟨by omega, .inr hfound⟩

-- Entries that are older than the span go.
theorem prune (h : Covers span clock seen m)
    (hm : ∀ k t, m k = some t → clock - t ≤ span → m' k = some t) : Covers span clock seen m' := by
  intro e he
  obtain ⟨hle, hold | ⟨t, ht, hlast⟩⟩ := h e he
  · exact ⟨hle, .inl hold⟩
  · refine ⟨hle, ?_⟩
    by_cases hspan : clock - t ≤ span
    · exact .inr ⟨t, hm _ _ ht hspan, hlast⟩
    · exact .inl (by omega)

-- Some keys are seen.
theorem add {keys : List κ} (h : Covers span clock seen m)
    (hkeys : ∀ k ∈ keys, m' k = some clock) (hothers : ∀ k ∉ keys, m' k = m k) :
    Covers span clock (keys.map (fun k => (clock, k)) ++ seen) m' := by
  intro e he
  rcases List.mem_append.mp he with hnew | hseen
  · obtain ⟨k, hk, rfl⟩ := List.mem_map.mp hnew
    exact ⟨Nat.le_refl _, .inr ⟨clock, hkeys k hk, Nat.le_refl _⟩⟩
  · obtain ⟨hle, hold | ⟨t, ht, hlast⟩⟩ := h e hseen
    · exact ⟨hle, .inl hold⟩
    · by_cases hk : e.2 ∈ keys
      · exact ⟨hle, .inr ⟨clock, hkeys _ hk, hle⟩⟩
      · exact ⟨hle, .inr ⟨t, (hothers _ hk).trans ht, hlast⟩⟩

-- What was seen within the span is found.
theorem find (h : Covers span clock seen m) {e : Nat × κ} (he : e ∈ seen) (hclock : clock ≤ now)
    (hnow : now - e.1 ≤ span) : ∃ t, m e.2 = some t ∧ now - t ≤ span := by
  obtain ⟨-, hold | ⟨t, ht, hlast⟩⟩ := h e he
  · omega
  · exact ⟨t, ht, by omega⟩

end Covers

-- What is in the map was seen, at that very time.
def Only (seen : List (Nat × κ)) (m : κ → Option Nat) : Prop := ∀ k t, m k = some t → (t, k) ∈ seen

namespace Only

theorem prune (h : Only seen m) (hm : ∀ k t, m' k = some t → m k = some t) : Only seen m' :=
  fun k t ht => h k t (hm k t ht)

theorem add {keys : List κ} (h : Only seen m)
    (hm : ∀ k t, m' k = some t → k ∈ keys ∧ t = clock ∨ m k = some t) :
    Only (keys.map (fun k => (clock, k)) ++ seen) m' := by
  intro k t ht
  rcases hm k t ht with ⟨hk, rfl⟩ | hold
  · exact List.mem_append_left _ (List.mem_map_of_mem hk)
  · exact List.mem_append_right _ (h k t hold)

end Only

-- What is found within the span is what was seen within it.
theorem Covers.find_iff (h : Covers span clock seen m) (honly : Only seen m) (hclock : clock ≤ now)
    {k : κ} :
    (∃ t, m k = some t ∧ now - t ≤ span) ↔ ∃ t, (t, k) ∈ seen ∧ now - t ≤ span := by
  constructor
  · rintro ⟨t, ht, hnow⟩
    exact ⟨t, honly k t ht, hnow⟩
  · rintro ⟨t, hseen, hnow⟩
    exact h.find hseen hclock hnow

end Mumble.Lib
