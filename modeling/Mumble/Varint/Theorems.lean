import Mumble.Lib.BigEndian
import Mumble.Lib.Grammar
import Mumble.Varint
import Mathlib.Data.FinEnum

namespace Mumble

open Mumble.Lib

-- The leading byte of a written varint carries a tag above its payload bits: the
-- forms with one, two, three and four bytes, and the short complement.
set_option synthInstance.maxSize 1024 in
theorem lead (x : UInt8) :
    (x < 0x80 → x &&& 0b1111_1100 ≠ 0b1111_1000 ∧ x &&& 0b1111_1100 ≠ 0b1111_1100 ∧
      x &&& 0b1000_0000 = 0 ∧ x &&& 0b0111_1111 = x) ∧
    (x < 0x40 → ((0b1000_0000 : UInt8) ||| x) &&& 0b1111_1100 ≠ 0b1111_1000 ∧
      ((0b1000_0000 : UInt8) ||| x) &&& 0b1111_1100 ≠ 0b1111_1100 ∧
      ((0b1000_0000 : UInt8) ||| x) &&& 0b1000_0000 ≠ 0 ∧
      ((0b1000_0000 : UInt8) ||| x) &&& 0b0100_0000 = 0 ∧
      ((0b1000_0000 : UInt8) ||| x) &&& 0b0011_1111 = x) ∧
    (x < 0x20 → ((0b1100_0000 : UInt8) ||| x) &&& 0b1111_1100 ≠ 0b1111_1000 ∧
      ((0b1100_0000 : UInt8) ||| x) &&& 0b1111_1100 ≠ 0b1111_1100 ∧
      ((0b1100_0000 : UInt8) ||| x) &&& 0b1000_0000 ≠ 0 ∧
      ((0b1100_0000 : UInt8) ||| x) &&& 0b0100_0000 ≠ 0 ∧
      ((0b1100_0000 : UInt8) ||| x) &&& 0b0010_0000 = 0 ∧
      ((0b1100_0000 : UInt8) ||| x) &&& 0b0001_1111 = x) ∧
    (x < 0x10 → ((0b1110_0000 : UInt8) ||| x) &&& 0b1111_1100 ≠ 0b1111_1000 ∧
      ((0b1110_0000 : UInt8) ||| x) &&& 0b1111_1100 ≠ 0b1111_1100 ∧
      ((0b1110_0000 : UInt8) ||| x) &&& 0b1000_0000 ≠ 0 ∧
      ((0b1110_0000 : UInt8) ||| x) &&& 0b0100_0000 ≠ 0 ∧
      ((0b1110_0000 : UInt8) ||| x) &&& 0b0010_0000 ≠ 0 ∧
      ((0b1110_0000 : UInt8) ||| x) &&& 0b0001_0000 = 0 ∧
      ((0b1110_0000 : UInt8) ||| x) &&& 0x0F = x) ∧
    (x < 0x04 → ((0b1111_1100 : UInt8) ||| x) &&& 0b1111_1100 ≠ 0b1111_1000 ∧
      ((0b1111_1100 : UInt8) ||| x) &&& 0b1111_1100 = 0b1111_1100 ∧
      ((0b1111_1100 : UInt8) ||| x) &&& 0x03 = x) := by
  revert x
  decide +kernel

-- What the reader returns on each of the forms the writer produces.

section Forms

variable (position : Nat) (tail : List UInt8)

theorem readVarint_form1 (x : UInt8) (h : x < 0x80) :
    readVarint position (x :: tail) = .ok (x.toUInt64, ⟨position + 1, tail⟩) := by
  obtain ⟨t1, t2, t3, t4⟩ := (lead x).1 h
  rw [readVarint, if_neg t1, if_neg t2, if_pos t3, t4]

theorem readVarint_form2 (x b1 : UInt8) (h : x < 0x40) :
    readVarint position ((0b1000_0000 ||| x) :: b1 :: tail) =
      .ok (x.toUInt64 <<< 8 ||| b1.toUInt64, ⟨position + 2, tail⟩) := by
  obtain ⟨t1, t2, t3, t4, t5⟩ := (lead x).2.1 h
  rw [readVarint, if_neg t1, if_neg t2, if_neg t3, t5]
  simp only [t4, if_true]
  rfl

theorem readVarint_form3 (x b1 b2 : UInt8) (h : x < 0x20) :
    readVarint position ((0b1100_0000 ||| x) :: b1 :: b2 :: tail) =
      .ok (x.toUInt64 <<< 16 ||| b1.toUInt64 <<< 8 ||| b2.toUInt64, ⟨position + 3, tail⟩) := by
  obtain ⟨t1, t2, t3, t4, t5, t6⟩ := (lead x).2.2.1 h
  rw [readVarint, if_neg t1, if_neg t2, if_neg t3, t6]
  simp only [t4, t5, if_true, if_false]
  rfl

theorem readVarint_form4 (x b1 b2 b3 : UInt8) (h : x < 0x10) :
    readVarint position ((0b1110_0000 ||| x) :: b1 :: b2 :: b3 :: tail) =
      .ok (x.toUInt64 <<< 24 ||| b1.toUInt64 <<< 16 ||| b2.toUInt64 <<< 8 ||| b3.toUInt64,
        ⟨position + 4, tail⟩) := by
  obtain ⟨t1, t2, t3, t4, t5, t6, t7⟩ := (lead x).2.2.2.1 h
  rw [readVarint, if_neg t1, if_neg t2, if_neg t3, t7]
  simp only [t4, t5, t6, if_true, if_false]
  rfl

theorem readVarint_form5 (b1 b2 b3 b4 : UInt8) :
    readVarint position (0b1111_0000 :: b1 :: b2 :: b3 :: b4 :: tail) =
      .ok (b1.toUInt64 <<< 24 ||| b2.toUInt64 <<< 16 ||| b3.toUInt64 <<< 8 ||| b4.toUInt64,
        ⟨position + 5, tail⟩) := rfl

theorem readVarint_form9 (b1 b2 b3 b4 b5 b6 b7 b8 : UInt8) :
    readVarint position (0b1111_0100 :: b1 :: b2 :: b3 :: b4 :: b5 :: b6 :: b7 :: b8 :: tail) =
      .ok (b1.toUInt64 <<< 56 ||| b2.toUInt64 <<< 48 ||| b3.toUInt64 <<< 40 |||
        b4.toUInt64 <<< 32 ||| b5.toUInt64 <<< 24 ||| b6.toUInt64 <<< 16 ||| b7.toUInt64 <<< 8 |||
        b8.toUInt64, ⟨position + 9, tail⟩) := rfl

theorem readVarint_small_complement (x : UInt8) (h : x < 0x04) :
    readVarint position ((0b1111_1100 ||| x) :: tail) =
      .ok (~~~x.toUInt64, ⟨position + 1, tail⟩) := by
  obtain ⟨t1, t2, t3⟩ := (lead x).2.2.2.2 h
  rw [readVarint, if_neg t1, if_pos t2, t3]

theorem readVarint_complement (value : UInt64) (rest : List UInt8) (c : Cursor)
    (h : readVarint (position + 1) rest = .ok (value, c)) :
    readVarint position (0b1111_1000 :: rest) = .ok (~~~value, c) := by
  rw [readVarint, if_pos (by decide), h]

end Forms

-- The forms without a complement.
theorem readVarint_writeVarint_plain (position : Nat) (value : UInt64) (tail : List UInt8)
    (hsmall : ¬value &&& 0xffff_ffff_ffff_fffc = 0xffff_ffff_ffff_fffc)
    (htop : ¬value &&& 0x8000_0000_0000_0000 = 0x8000_0000_0000_0000) :
    readVarint position (writeVarint value ++ tail) =
      .ok (value, ⟨position + (writeVarint value).length, tail⟩) := by
  have hbyte : value.toUInt8.toNat = value.toNat % 256 := UInt64.toNat_toUInt8 value
  -- the bytes that were written, put together again
  have hjoin (n : Nat) (hn : n ≤ 7) (h : value.toNat < 2 ^ (8 * n + 8)) (c : Cursor) :=
    congrArg (fun value => (Except.ok (value, c) : Except IoError (UInt64 × Cursor)))
      (joinBytes_lowBytes value n hn h)
  rw [writeVarint, if_neg hsmall, if_neg htop]
  simp only [gt_iff_lt, UInt64.lt_iff_toNat_lt, UInt64.reduceToNat]
  split_ifs with h8 h5 h4 h3 h2
  · exact (readVarint_form9 ..).trans (hjoin 7 (by omega) value.toNat_lt _)
  · exact (readVarint_form5 ..).trans (hjoin 3 (by omega) (by omega) _)
  · have hx : (value >>> 24).toUInt8 < 0x10 := byte_lt (k := 24) value (by decide) (by
      simp only [UInt8.reduceToNat]; omega)
    exact (readVarint_form4 _ _ _ _ _ _ hx).trans (hjoin 3 (by omega) (by omega) _)
  · have hx : (value >>> 16).toUInt8 < 0x20 := byte_lt (k := 16) value (by decide) (by
      simp only [UInt8.reduceToNat]; omega)
    exact (readVarint_form3 _ _ _ _ _ hx).trans (hjoin 2 (by omega) (by omega) _)
  · have hx : (value >>> 8).toUInt8 < 0x40 := byte_lt (k := 8) value (by decide) (by
      simp only [UInt8.reduceToNat]; omega)
    exact (readVarint_form2 _ _ _ _ hx).trans (hjoin 1 (by omega) (by omega) _)
  · have hx : value.toUInt8 < 0x80 := by
      rw [UInt8.lt_iff_toNat_lt, hbyte]
      change _ < 0x80
      omega
    have hv : value.toUInt8.toUInt64 = value := by
      apply UInt64.toNat_inj.mp
      rw [UInt8.toNat_toUInt64, hbyte]
      omega
    exact (readVarint_form1 _ _ _ hx).trans (by rw [hv]; rfl)

-- The complement of a value with the top bit has a form of its own, without another
-- complement.
theorem complement_plain {value : UInt64}
    (htop : value &&& 0x8000_0000_0000_0000 = 0x8000_0000_0000_0000) :
    ¬~~~value &&& 0xffff_ffff_ffff_fffc = 0xffff_ffff_ffff_fffc ∧
      ¬~~~value &&& 0x8000_0000_0000_0000 = 0x8000_0000_0000_0000 := by
  have hnot : (~~~value).toNat = 2 ^ 64 - 1 - value.toNat := UInt64.toNat_not value
  have hle : 2 ^ 63 ≤ value.toNat := mask_le_of_and_eq htop
  refine ⟨fun hm => ?_, fun hm => ?_⟩
  · have hle' : 2 ^ 64 - 4 ≤ (~~~value).toNat := mask_le_of_and_eq hm
    omega
  · have hle' : 2 ^ 63 ≤ (~~~value).toNat := mask_le_of_and_eq hm
    omega

-- Every written varint reads back as the value, with exactly the tail unread.
theorem readVarint_writeVarint (position : Nat) (value : UInt64) (tail : List UInt8) :
    readVarint position (writeVarint value ++ tail) =
      .ok (value, ⟨position + (writeVarint value).length, tail⟩) := by
  have hv := value.toNat_lt
  have hnot : (~~~value).toNat = 2 ^ 64 - 1 - value.toNat := UInt64.toNat_not value
  have hcc : ~~~(~~~value) = value := UInt64.not_not
  by_cases hsmall : value &&& 0xffff_ffff_ffff_fffc = 0xffff_ffff_ffff_fffc
  · have hle : 2 ^ 64 - 4 ≤ value.toNat := mask_le_of_and_eq hsmall
    have hbyte : (~~~value).toUInt8.toNat = (~~~value).toNat % 256 := UInt64.toNat_toUInt8 _
    have hx : (~~~value).toUInt8 < 0x04 := by
      rw [UInt8.lt_iff_toNat_lt, hbyte]
      change _ < 0x04
      omega
    have hback : (~~~value).toUInt8.toUInt64 = ~~~value := by
      apply UInt64.toNat_inj.mp
      rw [UInt8.toNat_toUInt64, hbyte]
      omega
    rw [writeVarint, if_pos hsmall]
    exact (readVarint_small_complement _ _ _ hx).trans (by rw [hback, hcc]; rfl)
  by_cases htop : value &&& 0x8000_0000_0000_0000 = 0x8000_0000_0000_0000
  · obtain ⟨hsmall', htop'⟩ := complement_plain htop
    have hread := readVarint_writeVarint_plain (position + 1) (~~~value) tail hsmall' htop'
    rw [writeVarint, if_neg hsmall, if_pos htop]
    refine (readVarint_complement _ _ _ _ hread).trans ?_
    rw [hcc, List.length_cons]
    congr 3
    omega
  · exact readVarint_writeVarint_plain position value tail hsmall htop

theorem length_writeVarint_plain {value : UInt64}
    (hsmall : ¬value &&& 0xffff_ffff_ffff_fffc = 0xffff_ffff_ffff_fffc)
    (htop : ¬value &&& 0x8000_0000_0000_0000 = 0x8000_0000_0000_0000) :
    (writeVarint value).length ≤ 9 := by
  rw [writeVarint, if_neg hsmall, if_neg htop]
  split_ifs <;> simp

-- A complement adds one byte to the longest of the other forms.
theorem length_writeVarint_le (value : UInt64) : (writeVarint value).length ≤ 10 := by
  by_cases hsmall : value &&& 0xffff_ffff_ffff_fffc = 0xffff_ffff_ffff_fffc
  · rw [writeVarint, if_pos hsmall]
    simp
  by_cases htop : value &&& 0x8000_0000_0000_0000 = 0x8000_0000_0000_0000
  · obtain ⟨hsmall', htop'⟩ := complement_plain htop
    have hplain := length_writeVarint_plain hsmall' htop'
    rw [writeVarint, if_neg hsmall, if_pos htop, List.length_cons]
    omega
  · exact (length_writeVarint_plain hsmall htop).trans (by decide)

-- The reader stops at the end of the form, so what follows it does not matter.
theorem prefixFree_writeVarint : PrefixFree writeVarint := by
  intro value other tail tail' h
  have hread := readVarint_writeVarint 0 value tail
  rw [h, readVarint_writeVarint 0 other tail'] at hread
  obtain ⟨hvalue, hcursor⟩ := Prod.mk.inj (Except.ok.inj hread)
  exact ⟨hvalue.symm, (congrArg Cursor.rest hcursor).symm⟩

theorem writeVarint_injective : Function.Injective writeVarint := by
  intro value other h
  exact (prefixFree_writeVarint (congrArg (· ++ []) h)).1

-- The written forms are a prefix-free code that the reader decodes in front of any other
-- bytes, and none of them is longer than `encode_voice_packet` reserves.
theorem varint_code :
    (∀ (position : Nat) (value : UInt64) (tail : List UInt8),
      readVarint position (writeVarint value ++ tail) =
        .ok (value, ⟨position + (writeVarint value).length, tail⟩)) ∧
    PrefixFree writeVarint ∧ Function.Injective writeVarint ∧
    ∀ value : UInt64, (writeVarint value).length ≤ 10 :=
  ⟨readVarint_writeVarint, prefixFree_writeVarint, writeVarint_injective, length_writeVarint_le⟩

end Mumble
