import Mathlib.Data.List.Basic
import Mathlib.Data.List.Induction

namespace Mumble.Lib

-- Big-endian and little-endian byte strings of an n-byte word.

variable {n : Nat}

def byteAt {w : Nat} (x : BitVec w) (i : Nat) : UInt8 :=
  UInt8.ofBitVec (x.extractLsb' (8 * i) 8)

def toBeBytes (x : BitVec (8 * n)) : List UInt8 :=
  (List.range n).map fun i => byteAt x (n - 1 - i)

def toLeBytes (x : BitVec (8 * n)) : List UInt8 :=
  (List.range n).map fun i => byteAt x i

def fromBeBytes (n : Nat) (bytes : List UInt8) : BitVec (8 * n) :=
  bytes.foldl (fun acc b => acc <<< 8 ||| b.toBitVec.setWidth (8 * n)) 0#(8 * n)

def fromLeBytes (n : Nat) (bytes : List UInt8) : BitVec (8 * n) :=
  fromBeBytes n bytes.reverse

@[simp] theorem length_toBeBytes (x : BitVec (8 * n)) : (toBeBytes x).length = n := by
  simp [toBeBytes]

@[simp] theorem length_toLeBytes (x : BitVec (8 * n)) : (toLeBytes x).length = n := by
  simp [toLeBytes]

theorem getLsbD_byteAt {w : Nat} (x : BitVec w) (i j : Nat) (hj : j < 8) :
    (byteAt x i).toBitVec.getLsbD j = x.getLsbD (8 * i + j) := by
  simp [byteAt, hj]

theorem byteAt_xor {w : Nat} (x y : BitVec w) (i : Nat) :
    byteAt (x ^^^ y) i = byteAt x i ^^^ byteAt y i := by
  apply UInt8.toBitVec_inj.mp
  apply BitVec.eq_of_getLsbD_eq
  intro j hj
  simp [getLsbD_byteAt _ _ _ hj]

theorem fromBeBytes_append_singleton (bytes : List UInt8) (b : UInt8) :
    fromBeBytes n (bytes ++ [b]) =
      fromBeBytes n bytes <<< 8 ||| b.toBitVec.setWidth (8 * n) := by
  simp [fromBeBytes]

-- Bit i of the assembled word is bit i % 8 of byte i / 8, counted from the
-- least significant end.
theorem getLsbD_fromBeBytes (bytes : List UInt8) (i : Nat) (hi : i < 8 * n) :
    (fromBeBytes n bytes).getLsbD i =
      ((bytes.reverse[i / 8]?).getD 0).toBitVec.getLsbD (i % 8) := by
  induction bytes using List.reverseRecOn generalizing i with
  | nil => simp [fromBeBytes]
  | append_singleton bytes b ih =>
      rw [fromBeBytes_append_singleton]
      simp only [BitVec.getLsbD_or, BitVec.getLsbD_shiftLeft, BitVec.getLsbD_setWidth, hi,
        decide_true, Bool.true_and, List.reverse_append, List.reverse_cons, List.reverse_nil,
        List.nil_append, List.cons_append]
      by_cases h8 : i < 8
      · have hd : i / 8 = 0 := by omega
        have hm : i % 8 = i := by omega
        simp [h8, hd, hm]
      · obtain ⟨k, rfl⟩ : ∃ k, i = k + 8 := ⟨i - 8, by omega⟩
        have hd : (k + 8) / 8 = k / 8 + 1 := by omega
        have hb : b.toBitVec.getLsbD (k + 8) = false := BitVec.getLsbD_of_ge _ _ (by omega)
        simp only [hd, hb, List.getElem?_cons_succ, Nat.add_sub_cancel, Nat.add_mod_right,
          h8, decide_false, Bool.not_false, Bool.true_and, Bool.or_false]
        exact ih k (by omega)

theorem reverse_toBeBytes (x : BitVec (8 * n)) : (toBeBytes x).reverse = toLeBytes x := by
  apply List.ext_getElem
  · simp
  · intro i hi hi'
    simp only [length_toLeBytes] at hi'
    simp only [List.getElem_reverse, toBeBytes, toLeBytes, List.getElem_map, List.getElem_range,
      List.length_map, List.length_range]
    congr 1
    omega

theorem fromBeBytes_toBeBytes (x : BitVec (8 * n)) : fromBeBytes n (toBeBytes x) = x := by
  apply BitVec.eq_of_getLsbD_eq
  intro i hi
  have hd : i / 8 < n := by omega
  rw [getLsbD_fromBeBytes _ i hi, reverse_toBeBytes]
  have hget : (toLeBytes x)[i / 8]? = some (byteAt x (i / 8)) := by
    simp [toLeBytes, List.getElem?_range hd]
  rw [hget, Option.getD_some, getLsbD_byteAt _ _ _ (Nat.mod_lt _ (by omega)), Nat.div_add_mod]

theorem toBeBytes_fromBeBytes (bytes : List UInt8) (h : bytes.length = n) :
    toBeBytes (fromBeBytes n bytes) = bytes := by
  apply List.reverse_injective
  rw [reverse_toBeBytes]
  apply List.ext_getElem
  · simp [h]
  · intro i hi hi'
    simp only [length_toLeBytes] at hi
    simp only [toLeBytes, List.getElem_map, List.getElem_range]
    apply UInt8.toBitVec_inj.mp
    apply BitVec.eq_of_getLsbD_eq
    intro j hj
    have hdiv : (8 * i + j) / 8 = i := by omega
    have hmod : (8 * i + j) % 8 = j := by omega
    rw [getLsbD_byteAt _ _ _ hj, getLsbD_fromBeBytes _ _ (by omega), hdiv, hmod,
      List.getElem?_eq_getElem hi', Option.getD_some]

theorem toBeBytes_xor (x y : BitVec (8 * n)) :
    toBeBytes (x ^^^ y) = List.zipWith (· ^^^ ·) (toBeBytes x) (toBeBytes y) := by
  simp only [toBeBytes, List.zipWith_map, List.zipWith_self, byteAt_xor]

end Mumble.Lib
