import Mathlib.Data.List.Basic
import Mathlib.Tactic.Ring

/-!
Numbers that are put together from their bytes by shifts, the highest byte first.
-/

namespace Mumble.Lib

def bigEndian (high : Nat) (bytes : List UInt8) : Nat :=
  bytes.foldl (fun n b => 256 * n + b.toNat) high

-- What is there so far, and the bytes below it.
def joinBytes (a : UInt64) : List UInt8 → UInt64
  | [] => a
  | [b] => a ||| b.toUInt64
  | b :: b' :: bytes =>
      joinBytes (a ||| b.toUInt64 <<< UInt64.ofNat (8 * (b' :: bytes).length)) (b' :: bytes)

-- The lowest n bytes.
def lowBytes (value : UInt64) : Nat → List UInt8
  | 0 => []
  | 1 => [value.toUInt8]
  | n + 2 => (value >>> UInt64.ofNat (8 * (n + 1))).toUInt8 :: lowBytes value (n + 1)

variable {a value : UInt64} {b : UInt8} {bytes : List UInt8} {high k n : Nat}

theorem toNat_shiftLeft_byte (b : UInt8) (hk : k ≤ 56) :
    (b.toUInt64 <<< UInt64.ofNat k).toNat = 2 ^ k * b.toNat := by
  have hb := b.toNat_lt
  have hpow : 2 ^ k ≤ 2 ^ 56 := Nat.pow_le_pow_right (by omega) hk
  have hprod : 2 ^ k * b.toNat ≤ 2 ^ 56 * 255 := Nat.mul_le_mul hpow (by omega)
  rw [UInt64.toNat_shiftLeft, UInt8.toNat_toUInt64, UInt64.toNat_ofNat',
    Nat.mod_eq_of_lt (by omega : k < 2 ^ 64), Nat.mod_eq_of_lt (by omega : k < 64),
    Nat.shiftLeft_eq, Nat.mul_comm, Nat.mod_eq_of_lt (by omega)]

theorem toNat_or_shiftLeft_byte (b : UInt8) (hk : k ≤ 48) (ha : a.toNat = 2 ^ (k + 8) * high) :
    (a ||| b.toUInt64 <<< UInt64.ofNat k).toNat = 2 ^ k * (256 * high + b.toNat) := by
  have hb := b.toNat_lt
  have hlt : 2 ^ k * b.toNat < 2 ^ (k + 8) := by
    rw [Nat.pow_add]
    exact Nat.mul_lt_mul_of_pos_left (by omega) (Nat.two_pow_pos _)
  rw [UInt64.toNat_or, toNat_shiftLeft_byte b (by omega), ha, ← Nat.two_pow_add_eq_or_of_lt hlt]
  ring

theorem toNat_or_byte (b : UInt8) (ha : a.toNat = 2 ^ 8 * high) :
    (a ||| b.toUInt64).toNat = 256 * high + b.toNat := by
  have hb := b.toNat_lt
  rw [UInt64.toNat_or, ha, UInt8.toNat_toUInt64, ← Nat.two_pow_add_eq_or_of_lt (by omega)]

theorem toNat_byte (value : UInt64) (hk : k < 64) :
    (value >>> UInt64.ofNat k).toUInt8.toNat = value.toNat / 2 ^ k % 256 := by
  rw [UInt64.toNat_toUInt8, UInt64.toNat_shiftRight, UInt64.toNat_ofNat',
    Nat.mod_eq_of_lt (by omega : k < 2 ^ 64), Nat.mod_eq_of_lt hk, Nat.shiftRight_eq_div_pow]

theorem byte_lt {bound : UInt8} (value : UInt64) (hk : k < 64)
    (h : value.toNat / 2 ^ k < bound.toNat) : (value >>> UInt64.ofNat k).toUInt8 < bound := by
  rw [UInt8.lt_iff_toNat_lt, toNat_byte value hk]
  exact Nat.lt_of_le_of_lt (Nat.mod_le _ _) h

theorem toNat_joinBytes (hbytes : bytes.length ≤ 7)
    (ha : a.toNat = 2 ^ (8 * bytes.length) * high) :
    (joinBytes a bytes).toNat = bigEndian high bytes := by
  fun_induction joinBytes a bytes generalizing high with
  | case1 a => exact ha.trans (Nat.one_mul high)
  | case2 a b => exact toNat_or_byte b ha
  | case3 a b b' bytes ih =>
      rw [List.length_cons] at hbytes
      refine ih (by omega) (toNat_or_shiftLeft_byte b (by omega) ?_)
      rw [ha, List.length_cons (a := b), Nat.mul_add]

-- The number of the bytes is what fits into a word.
theorem joinBytes_eq (b : UInt8) (h : bytes.length ≤ 7) :
    joinBytes (b.toUInt64 <<< UInt64.ofNat (8 * bytes.length)) bytes =
      UInt64.ofNat (bigEndian b.toNat bytes) := by
  have hjoin := toNat_joinBytes h (toNat_shiftLeft_byte b (k := 8 * bytes.length) (by omega))
  rw [← hjoin, UInt64.ofNat_toNat]

theorem length_lowBytes (value : UInt64) (n : Nat) : (lowBytes value n).length = n := by
  fun_induction lowBytes value n with
  | case1 => rfl
  | case2 => rfl
  | case3 n ih => rw [List.length_cons, ih]

theorem bigEndian_lowBytes (value : UInt64) (h : n ≤ 8) :
    bigEndian (value.toNat / 2 ^ (8 * n)) (lowBytes value n) = value.toNat := by
  fun_induction lowBytes value n with
  | case1 => exact Nat.div_one _
  | case2 =>
      have hbyte : value.toUInt8.toNat = value.toNat % 256 := UInt64.toNat_toUInt8 value
      rw [bigEndian, List.foldl_cons, List.foldl_nil, hbyte]
      exact Nat.div_add_mod value.toNat 256
  | case3 n ih =>
      have hdigit : 256 * (value.toNat / 2 ^ (8 * (n + 2))) + value.toNat / 2 ^ (8 * (n + 1)) % 256 =
          value.toNat / 2 ^ (8 * (n + 1)) := by
        rw [Nat.mul_add 8 (n + 1) 1, Nat.pow_add, ← Nat.div_div_eq_div_mul]
        exact Nat.div_add_mod _ 256
      rw [bigEndian, List.foldl_cons, toNat_byte value (by omega), hdigit]
      exact ih (by omega)

-- A value comes back from its bytes.
theorem joinBytes_lowBytes (value : UInt64) (n : Nat) (hn : n ≤ 7)
    (h : value.toNat < 2 ^ (8 * n + 8)) :
    joinBytes ((value >>> UInt64.ofNat (8 * n)).toUInt8.toUInt64 <<< UInt64.ofNat (8 * n))
      (lowBytes value n) = value := by
  have htop : value.toNat / 2 ^ (8 * n) < 256 := by
    rw [Nat.pow_add] at h
    exact Nat.div_lt_of_lt_mul h
  have hbyte : (value >>> UInt64.ofNat (8 * n)).toUInt8.toNat = value.toNat / 2 ^ (8 * n) := by
    rw [toNat_byte value (by omega), Nat.mod_eq_of_lt htop]
  have hlen : (lowBytes value n).length = n := length_lowBytes value n
  have hshift : ((value >>> UInt64.ofNat (8 * n)).toUInt8.toUInt64 <<< UInt64.ofNat (8 * n)).toNat =
      2 ^ (8 * (lowBytes value n).length) * (value.toNat / 2 ^ (8 * n)) := by
    rw [toNat_shiftLeft_byte _ (by omega), hbyte, hlen]
  apply UInt64.toNat_inj.mp
  rw [toNat_joinBytes (by omega) hshift, bigEndian_lowBytes value (by omega)]

end Mumble.Lib
