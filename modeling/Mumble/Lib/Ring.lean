import Mathlib.Data.List.DropRight

namespace Mumble.Lib.Ring

variable {α : Type}

-- A buffer that drops its oldest entry when it is full.
def push (capacity : Nat) (buffer : List α) (x : α) : List α :=
  (if capacity ≤ buffer.length then buffer.drop 1 else buffer) ++ [x]

-- It holds the newest of all that was pushed.
theorem push_rtake {capacity : Nat} (h : 0 < capacity) (all : List α) (x : α) :
    push capacity (all.rtake capacity) x = (all ++ [x]).rtake capacity := by
  unfold push
  by_cases hfull : capacity ≤ all.length
  · have hlength : (all.drop (all.length - capacity)).length = capacity := by
      rw [List.length_drop]
      omega
    rw [List.rtake, List.rtake, hlength, if_pos (Nat.le_refl _), List.drop_drop, List.length_append,
      List.length_singleton, List.drop_append_of_le_length (by omega)]
    congr 2
    omega
  · have hall : all.length - capacity = 0 := by omega
    have hmore : (all ++ [x]).length - capacity = 0 := by
      rw [List.length_append, List.length_singleton]
      omega
    rw [List.rtake, List.rtake, hall, hmore, List.drop_zero, List.drop_zero, if_neg hfull]

end Mumble.Lib.Ring
