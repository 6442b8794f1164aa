import Mathlib.Algebra.Ring.Int.Defs
import Mathlib.Algebra.Ring.Nat
import Mathlib.Tactic.Common

namespace Mumble.Lib

-- Arithmetic of fixed width that has no result where the exact one is outside the type.
-- What is done there depends on how the program was built: it panics or it wraps.

def checkedI64 (x : Int) : Option Int64 :=
  if -2 ^ 63 ≤ x ∧ x < 2 ^ 63 then some (.ofInt x) else none

def checkedU64 (x : Int) : Option UInt64 :=
  if 0 ≤ x ∧ x < 2 ^ 64 then some (.ofNat x.toNat) else none

def addI64 (a b : Int64) : Option Int64 := checkedI64 (a.toInt + b.toInt)
def subI64 (a b : Int64) : Option Int64 := checkedI64 (a.toInt - b.toInt)
def mulI64 (a b : Int64) : Option Int64 := checkedI64 (a.toInt * b.toInt)
def addU64 (a b : UInt64) : Option UInt64 := checkedU64 (a.toNat + b.toNat)
def subU64 (a b : UInt64) : Option UInt64 := checkedU64 (a.toNat - b.toNat)
def mulU64 (a b : UInt64) : Option UInt64 := checkedU64 (a.toNat * b.toNat)

theorem checkedI64_eq {x : Int} (h : -2 ^ 63 ≤ x) (h' : x < 2 ^ 63) :
    ∃ a, checkedI64 x = some a ∧ a.toInt = x := by
  refine ⟨.ofInt x, if_pos ⟨h, h'⟩, ?_⟩
  rw [Int64.toInt_ofInt]
  exact Int.bmod_eq_of_le h h'

theorem checkedU64_eq {n : Nat} (h : n < 2 ^ 64) :
    ∃ a, checkedU64 n = some a ∧ a.toNat = n := by
  refine ⟨.ofNat n, if_pos ⟨by omega, by omega⟩, ?_⟩
  rw [UInt64.toNat_ofNat']
  exact Nat.mod_eq_of_lt h

-- A computation whose first step has a result.
theorem bind_of_eq_some {α β : Type} {x : Option α} {a : α} {f : α → Option β} {y : Option β}
    (hx : x = some a) (hf : f a = y) : (x >>= f) = y := by
  rw [hx]
  exact hf

section

variable {a b : UInt64}

theorem addU64_eq (h : a.toNat + b.toNat < 2 ^ 64) :
    ∃ c, addU64 a b = some c ∧ c.toNat = a.toNat + b.toNat := by
  unfold addU64
  rw [← Int.natCast_add]
  exact checkedU64_eq h

theorem subU64_eq (h : b.toNat ≤ a.toNat) :
    ∃ c, subU64 a b = some c ∧ c.toNat = a.toNat - b.toNat := by
  have hlt := a.toNat_lt
  unfold subU64
  rw [← Int.ofNat_sub h]
  exact checkedU64_eq (by omega)

theorem mulU64_eq (h : a.toNat * b.toNat < 2 ^ 64) :
    ∃ c, mulU64 a b = some c ∧ c.toNat = a.toNat * b.toNat := by
  unfold mulU64
  rw [← Int.natCast_mul]
  exact checkedU64_eq h

end

end Mumble.Lib
