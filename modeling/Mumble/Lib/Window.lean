import Mathlib.Data.Int.ModEq
import Mathlib.Data.List.Basic
import Mathlib.Logic.Function.Basic
import Mathlib.Order.Interval.Finset.Nat

namespace Mumble.Lib

-- Replay protection by a table of slots. A position n belongs to slot n % slots,
-- which remembers the page of the last position accepted there. Positions above
-- the highest one are accepted; one at most `width` below it, only if its slot
-- remembers another page.

structure Window (α : Type) where
  top : Nat
  slot : Nat → α

namespace Window

variable {α : Type} {slots width : Nat} {page : Nat → α}

section

variable (slots width page)

def record (w : Window α) (n : Nat) : Nat → α := Function.update w.slot (n % slots) (page n)

inductive Step : Window α → Nat → Window α → Prop where
  | ahead {w : Window α} {n : Nat} (h : w.top < n) : Step w n ⟨n, w.record slots page n⟩
  | late {w : Window α} {n : Nat} (hle : n ≤ w.top) (hnear : w.top < n + width)
      (hfresh : w.slot (n % slots) ≠ page n) : Step w n ⟨w.top, w.record slots page n⟩

-- The positions accepted along a run, the latest first.
inductive Run : Window α → List Nat → Window α → Prop where
  | nil (w : Window α) : Run w [] w
  | cons {w w' w'' : Window α} {accepted : List Nat} {n : Nat} (hrun : Run w accepted w')
      (hstep : Step slots width page w' n w'') : Run w (n :: accepted) w''

-- The position accepted last in a slot.
def lastIn (accepted : List Nat) (r : Nat) : Option Nat := accepted.find? fun n => n % slots = r

-- What ties the table to the positions accepted so far.
structure Inv (start : Window α) (accepted : List Nat) (w : Window α) : Prop where
  le_top : ∀ n ∈ accepted, n ≤ w.top
  start_le : start.top ≤ w.top
  increasing : accepted.Pairwise fun n earlier => n % slots = earlier % slots → earlier < n
  slot_eq : ∀ r, w.slot r = ((lastIn slots accepted r).map page).getD (start.slot r)

end

variable {w w' w'' start : Window α} {accepted : List Nat} {n : Nat}

-- The last position of a slot is the highest one accepted in it.
theorem lt_of_lastIn_lt {last : Nat}
    (hinc : accepted.Pairwise fun n earlier => n % slots = earlier % slots → earlier < n)
    (hlast : lastIn slots accepted (n % slots) = some last) (hlt : last < n) :
    ∀ earlier ∈ accepted, n % slots = earlier % slots → earlier < n := by
  induction accepted with
  | nil => simp
  | cons head tail ih =>
      obtain ⟨hhead, htail⟩ := List.pairwise_cons.mp hinc
      intro earlier hmem hres
      by_cases hslot : head % slots = n % slots
      · have heq : head = last := by simpa [lastIn, hslot] using hlast
        rcases List.mem_cons.mp hmem with rfl | hmem
        · omega
        · have := hhead earlier hmem (hslot.trans hres)
          omega
      · have hlast' : lastIn slots tail (n % slots) = some last := by
          simpa [lastIn, hslot] using hlast
        rcases List.mem_cons.mp hmem with rfl | hmem
        · exact absurd hres.symm hslot
        · exact ih htail hlast' earlier hmem hres

theorem mem_of_lastIn {r last : Nat} (h : lastIn slots accepted r = some last) :
    last ∈ accepted ∧ last % slots = r :=
  ⟨List.mem_of_find?_eq_some h, by simpa using List.find?_some h⟩

theorem not_mem_of_lastIn_eq_none {r : Nat} (h : lastIn slots accepted r = none) :
    ∀ earlier ∈ accepted, earlier % slots ≠ r := by
  simpa [lastIn] using h

-- Two positions of one slot are a whole round of the table apart.
theorem add_le_of_mod_eq {a b : Nat} (hmod : a % slots = b % slots) (hlt : a < b) :
    a + slots ≤ b := by
  have hdvd : slots ∣ b - a := (Nat.modEq_iff_dvd' hlt.le).mp hmod
  have := Nat.le_of_dvd (by omega) hdvd
  omega

-- A late position that the table lets through lies above every position
-- accepted in its slot: a higher one would be a round ahead, past the top.
theorem Inv.lt_of_late (hinv : Inv slots page start accepted w) (hwidth : width ≤ slots)
    (hnear : w.top < n + width) (hfresh : w.slot (n % slots) ≠ page n) :
    ∀ earlier ∈ accepted, n % slots = earlier % slots → earlier < n := by
  cases hlast : lastIn slots accepted (n % slots) with
  | none =>
      intro earlier hmem hres
      exact absurd hres.symm (not_mem_of_lastIn_eq_none hlast earlier hmem)
  | some last =>
      obtain ⟨hmem, hres⟩ := mem_of_lastIn hlast
      have hne : last ≠ n := by
        rintro rfl
        apply hfresh
        rw [hinv.slot_eq, hlast]
        rfl
      have hnot : ¬n < last := by
        intro hlt
        have hround := add_le_of_mod_eq hres.symm hlt
        have := hinv.le_top last hmem
        omega
      exact lt_of_lastIn_lt hinv.increasing hlast (by omega)

theorem Inv.record (hinv : Inv slots page start accepted w) (top : Nat) (htop : w.top ≤ top)
    (hn : n ≤ top) (habove : ∀ earlier ∈ accepted, n % slots = earlier % slots → earlier < n) :
    Inv slots page start (n :: accepted) ⟨top, w.record slots page n⟩ where
  le_top m hm := by
    rcases List.mem_cons.mp hm with rfl | hm
    · exact hn
    · exact (hinv.le_top m hm).trans htop
  start_le := hinv.start_le.trans htop
  increasing := List.pairwise_cons.mpr ⟨habove, hinv.increasing⟩
  slot_eq r := by
    by_cases hr : n % slots = r
    · subst hr
      simp [Window.record, lastIn]
    · have hne : r ≠ n % slots := Ne.symm hr
      simpa [Window.record, lastIn, hr, Function.update_of_ne hne] using hinv.slot_eq r

theorem Inv.step (hinv : Inv slots page start accepted w) (hwidth : width ≤ slots)
    (hstep : Step slots width page w n w') : Inv slots page start (n :: accepted) w' := by
  cases hstep with
  | ahead h =>
      refine hinv.record n h.le le_rfl fun earlier hmem _ => ?_
      exact (hinv.le_top earlier hmem).trans_lt h
  | late hle hnear hfresh =>
      exact hinv.record w.top le_rfl hle (hinv.lt_of_late hwidth hnear hfresh)

theorem Run.inv (hrun : Run slots width page start accepted w) (hwidth : width ≤ slots) :
    Inv slots page start accepted w := by
  induction hrun with
  | nil => exact ⟨by simp, le_rfl, .nil, fun r => rfl⟩
  | cons hrun hstep ih => exact ih.step hwidth hstep

-- No position is accepted twice.
theorem Run.nodup (hrun : Run slots width page start accepted w) (hwidth : width ≤ slots) :
    accepted.Nodup := by
  refine (hrun.inv hwidth).increasing.imp ?_
  intro a b h heq
  subst heq
  exact lt_irrefl _ (h rfl)

-- The accounts of a run.

theorem Run.top_eq (hrun : Run slots width page start accepted w) :
    w.top = accepted.foldr max start.top := by
  induction hrun with
  | nil => rfl
  | cons hrun hstep ih =>
      rw [List.foldr_cons, ← ih]
      cases hstep with
      | ahead h => exact (max_eq_left h.le).symm
      | late hle hnear hfresh => exact (max_eq_right hle).symm

theorem Run.top_mem (hrun : Run slots width page start accepted w) :
    w.top = start.top ∨ w.top ∈ accepted := by
  induction hrun with
  | nil => exact .inl rfl
  | cons hrun hstep ih =>
      cases hstep with
      | ahead h => exact .inr (List.mem_cons_self ..)
      | late hle hnear hfresh => exact ih.imp_right (List.mem_cons_of_mem _)

-- A late position above the start is below the top: the top is taken.
theorem Run.lt_top (hrun : Run slots width page start accepted w) (hwidth : width ≤ slots)
    (hstep : Step slots width page w n w') (hstart : start.top < n) (hle : n ≤ w.top) :
    n < w.top := by
  have hnew : n ∉ accepted := (List.nodup_cons.mp ((hrun.cons hstep).nodup hwidth)).1
  rcases hrun.top_mem with htop | htop
  · omega
  · exact lt_of_le_of_ne hle fun heq => hnew (heq ▸ htop)

-- How many positions were accepted below the highest one before them.
def lates (start : Nat) : List Nat → Nat
  | [] => 0
  | n :: earlier => lates start earlier + if n < earlier.foldr max start then 1 else 0

theorem lates_le_length (start : Nat) (accepted : List Nat) :
    lates start accepted ≤ accepted.length := by
  induction accepted with
  | nil => exact Nat.le_refl _
  | cons n earlier ih =>
      rw [lates, List.length_cons]
      split_ifs <;> omega

-- The positions that a run has left out.
def missing (lo hi : Nat) (accepted : List Nat) : Finset Nat :=
  (Finset.Ioc lo hi).filter fun n => n ∉ accepted

-- What a run that takes no position at or below its start has passed, it has accepted or
-- left out.
theorem Run.card_missing (hrun : Run slots width page start accepted w) (hwidth : width ≤ slots)
    (habove : ∀ n ∈ accepted, start.top < n) :
    (missing start.top w.top accepted).card + accepted.length = w.top - start.top := by
  have hinside : accepted.toFinset ⊆ Finset.Ioc start.top w.top := by
    intro n hn
    have hn := List.mem_toFinset.mp hn
    exact Finset.mem_Ioc.mpr ⟨habove n hn, (hrun.inv hwidth).le_top n hn⟩
  have hmissing : missing start.top w.top accepted =
      Finset.Ioc start.top w.top \ accepted.toFinset := by
    ext n
    simp [missing]
  have hcard := Finset.card_le_card hinside
  rw [List.toFinset_card_of_nodup (hrun.nodup hwidth), Nat.card_Ioc] at hcard
  rw [hmissing, Finset.card_sdiff_of_subset hinside,
    List.toFinset_card_of_nodup (hrun.nodup hwidth), Nat.card_Ioc]
  omega

end Window

end Mumble.Lib
