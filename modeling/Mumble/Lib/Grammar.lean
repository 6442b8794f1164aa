import Mathlib.Data.List.Basic

namespace Mumble.Lib

-- A language whose words stand for values. It says which inputs a reader has to take,
-- and mentions no reader.
abbrev Grammar (α β : Type) := List α → β → Prop

namespace Grammar

variable {α β : Type}

-- A reader gets a value from the front of its input and leaves a rest. It follows the
-- grammar if it takes a word of the grammar, any word, and leaves all that comes after it.
def Reads (G : Grammar α β) (reads : List α → β → List α → Prop) : Prop :=
  ∀ input x rest, reads input x rest ↔ ∃ word, G word x ∧ input = word ++ rest

end Grammar

-- A code in which no word starts another one.
def PrefixFree {α β : Type} (code : β → List α) : Prop :=
  ∀ {x y : β} {rest rest' : List α}, code x ++ rest = code y ++ rest' → x = y ∧ rest = rest'

-- A sequence of words can be read in one way only.
theorem PrefixFree.flatMap_inj {α β : Type} {code : β → List α} (hcode : PrefixFree code)
    (hne : ∀ x, code x ≠ []) {xs ys : List β} (h : xs.flatMap code = ys.flatMap code) :
    xs = ys := by
  induction xs generalizing ys with
  | nil =>
      cases ys with
      | nil => rfl
      | cons y ys =>
          rw [List.flatMap_cons] at h
          exact absurd (List.append_eq_nil_iff.mp h.symm).1 (hne y)
  | cons x xs ih =>
      cases ys with
      | nil =>
          rw [List.flatMap_cons] at h
          exact absurd (List.append_eq_nil_iff.mp h).1 (hne x)
      | cons y ys =>
          obtain ⟨rfl, hrest⟩ := hcode h
          rw [ih hrest]

end Mumble.Lib
