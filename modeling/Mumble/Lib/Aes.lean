import Mumble.Lib.Bytes
import Mathlib.Data.FinEnum

namespace Mumble.Lib.Aes

-- The block cipher AES-128. A block is a 16-byte word read big-endian; its state
-- is four columns of four bytes, filled column by column.

structure Column where
  b0 : UInt8
  b1 : UInt8
  b2 : UInt8
  b3 : UInt8
  deriving DecidableEq, Repr

structure State where
  c0 : Column
  c1 : Column
  c2 : Column
  c3 : Column
  deriving DecidableEq, Repr

def Column.map (f : UInt8 → UInt8) (c : Column) : Column := ⟨f c.b0, f c.b1, f c.b2, f c.b3⟩

def Column.xor (c d : Column) : Column :=
  ⟨c.b0 ^^^ d.b0, c.b1 ^^^ d.b1, c.b2 ^^^ d.b2, c.b3 ^^^ d.b3⟩

def State.mapColumns (f : Column → Column) (s : State) : State := ⟨f s.c0, f s.c1, f s.c2, f s.c3⟩

-- The tables as one number each, entry i in byte i from the low end.
def sboxTable : Nat :=
  0x16bb54b00f2d99416842e6bf0d89a18cdf2855cee9871e9b948ed9691198f8e19e1dc186b95735610ef6034866b53e708a8bbd4b1f74dde8c6b4a61c2e2578ba08ae7a65eaf4566ca94ed58d6d37c8e779e4959162acd3c25c2406490a3a32e0db0b5ede14b8ee4688902a22dc4f816073195d643d7ea7c41744975fec130ccdd2f3ff1021dab6bcf5389d928f40a351a89f3c507f02f94585334d43fbaaefd0cf584c4a39becb6a5bb1fc20ed00d153842fe329b3d63b52a05a6e1b1a2c830975b227ebe28012079a059618c323c7041531d871f1e5a534ccf73f362693fdb7c072a49cafa2d4adf04759fa7dc982ca76abd7fe2b670130c56f6bf27b777c63

def invSboxTable : Nat :=
  0x7d0c2155631469e126d677ba7e042b17619953833cbbebc8b0f52aae4d3be0a0ef9cc9939f7ae52d0d4ab519a97f51605fec8027591012b131c7078833a8dd1ff45acd78fec0db9a2079d2c64b3e56fc1bbe18aa0e62b76f89c5291d711af1476edf751ce837f9e28535ade72274ac9673e6b4f0cecff297eadc674f4111913a6b8a130103bdafc1020f3fca8f1e2cd00645b3b80558e4f70ad3bc8c00abd890849d8da75746155edab9edfd5048706c92b6655dcc5ca4d41698688664f6f87225d18b6d49a25b76b224d92866a12e084ec3fa420b954cee3d23c2a632947b54cbe9dec444438e3487ff2f9b8239e37cfbd7f3819ea340bf38a53630d56a0952

def tableByte (table : Nat) (b : UInt8) : UInt8 := UInt8.ofNat (table >>> (8 * b.toNat) % 256)

def subByte (b : UInt8) : UInt8 := tableByte sboxTable b

def invSubByte (b : UInt8) : UInt8 := tableByte invSboxTable b

def subBytes (s : State) : State := s.mapColumns (Column.map subByte)

def invSubBytes (s : State) : State := s.mapColumns (Column.map invSubByte)

def shiftRows (s : State) : State :=
  ⟨⟨s.c0.b0, s.c1.b1, s.c2.b2, s.c3.b3⟩, ⟨s.c1.b0, s.c2.b1, s.c3.b2, s.c0.b3⟩,
    ⟨s.c2.b0, s.c3.b1, s.c0.b2, s.c1.b3⟩, ⟨s.c3.b0, s.c0.b1, s.c1.b2, s.c2.b3⟩⟩

def invShiftRows (s : State) : State :=
  ⟨⟨s.c0.b0, s.c3.b1, s.c2.b2, s.c1.b3⟩, ⟨s.c1.b0, s.c0.b1, s.c3.b2, s.c2.b3⟩,
    ⟨s.c2.b0, s.c1.b1, s.c0.b2, s.c3.b3⟩, ⟨s.c3.b0, s.c2.b1, s.c1.b2, s.c0.b3⟩⟩

-- Multiplication by x modulo x⁸ + x⁴ + x³ + x + 1.
def xtime (b : UInt8) : UInt8 := b <<< 1 ^^^ if b &&& 0x80 = 0 then 0 else 0x1b

def mixColumn (c : Column) : Column :=
  ⟨xtime c.b0 ^^^ (xtime c.b1 ^^^ c.b1) ^^^ c.b2 ^^^ c.b3,
    c.b0 ^^^ xtime c.b1 ^^^ (xtime c.b2 ^^^ c.b2) ^^^ c.b3,
    c.b0 ^^^ c.b1 ^^^ xtime c.b2 ^^^ (xtime c.b3 ^^^ c.b3),
    (xtime c.b0 ^^^ c.b0) ^^^ c.b1 ^^^ c.b2 ^^^ xtime c.b3⟩

def mul9 (b : UInt8) : UInt8 := xtime (xtime (xtime b)) ^^^ b
def mul11 (b : UInt8) : UInt8 := xtime (xtime (xtime b)) ^^^ xtime b ^^^ b
def mul13 (b : UInt8) : UInt8 := xtime (xtime (xtime b)) ^^^ xtime (xtime b) ^^^ b
def mul14 (b : UInt8) : UInt8 := xtime (xtime (xtime b)) ^^^ xtime (xtime b) ^^^ xtime b

def invMixColumn (c : Column) : Column :=
  ⟨mul14 c.b0 ^^^ mul11 c.b1 ^^^ mul13 c.b2 ^^^ mul9 c.b3,
    mul9 c.b0 ^^^ mul14 c.b1 ^^^ mul11 c.b2 ^^^ mul13 c.b3,
    mul13 c.b0 ^^^ mul9 c.b1 ^^^ mul14 c.b2 ^^^ mul11 c.b3,
    mul11 c.b0 ^^^ mul13 c.b1 ^^^ mul9 c.b2 ^^^ mul14 c.b3⟩

def addRoundKey (k s : State) : State :=
  ⟨k.c0.xor s.c0, k.c1.xor s.c1, k.c2.xor s.c2, k.c3.xor s.c3⟩

def nextRoundKey (rcon : UInt8) (k : State) : State :=
  let t : Column := ⟨subByte k.c3.b1 ^^^ rcon, subByte k.c3.b2, subByte k.c3.b3, subByte k.c3.b0⟩
  let c0 := k.c0.xor t
  let c1 := k.c1.xor c0
  let c2 := k.c2.xor c1
  ⟨c0, c1, c2, k.c3.xor c2⟩

-- The n round keys after k.
def expandKey : Nat → UInt8 → State → List State
  | 0, _, _ => []
  | n + 1, rcon, k =>
      let next := nextRoundKey rcon k
      next :: expandKey n (xtime rcon) next

structure Schedule where
  first : State
  middle : List State
  last : State

def schedule (key : State) : Schedule :=
  let keys := expandKey 10 1 key
  ⟨key, keys.take 9, (keys.getLast?).getD key⟩

def encryptRound (s k : State) : State :=
  addRoundKey k ((shiftRows (subBytes s)).mapColumns mixColumn)

def decryptRound (k s : State) : State :=
  invSubBytes (invShiftRows ((addRoundKey k s).mapColumns invMixColumn))

def encryptState (keys : Schedule) (s : State) : State :=
  let s := keys.middle.foldl encryptRound (addRoundKey keys.first s)
  addRoundKey keys.last (shiftRows (subBytes s))

def decryptState (keys : Schedule) (s : State) : State :=
  let s := invSubBytes (invShiftRows (addRoundKey keys.last s))
  addRoundKey keys.first (keys.middle.foldr decryptRound s)

def State.ofBlock (x : BitVec 128) : State :=
  ⟨⟨byteAt x 15, byteAt x 14, byteAt x 13, byteAt x 12⟩,
    ⟨byteAt x 11, byteAt x 10, byteAt x 9, byteAt x 8⟩,
    ⟨byteAt x 7, byteAt x 6, byteAt x 5, byteAt x 4⟩,
    ⟨byteAt x 3, byteAt x 2, byteAt x 1, byteAt x 0⟩⟩

def Column.toList (c : Column) : List UInt8 := [c.b0, c.b1, c.b2, c.b3]

def State.toList (s : State) : List UInt8 :=
  s.c0.toList ++ s.c1.toList ++ s.c2.toList ++ s.c3.toList

def State.toBlock (s : State) : BitVec 128 := fromBeBytes 16 s.toList

def encrypt (key block : BitVec 128) : BitVec 128 :=
  (encryptState (schedule (.ofBlock key)) (.ofBlock block)).toBlock

def decrypt (key block : BitVec 128) : BitVec 128 :=
  (decryptState (schedule (.ofBlock key)) (.ofBlock block)).toBlock

theorem toList_ofBlock (x : BitVec 128) : (State.ofBlock x).toList = toBeBytes (n := 16) x := rfl

theorem toBlock_ofBlock (x : BitVec 128) : (State.ofBlock x).toBlock = x := by
  rw [State.toBlock, toList_ofBlock]
  exact fromBeBytes_toBeBytes (n := 16) x

theorem toList_injective {s t : State} (h : s.toList = t.toList) : s = t := by
  obtain ⟨⟨_, _, _, _⟩, ⟨_, _, _, _⟩, ⟨_, _, _, _⟩, ⟨_, _, _, _⟩⟩ := s
  obtain ⟨⟨_, _, _, _⟩, ⟨_, _, _, _⟩, ⟨_, _, _, _⟩, ⟨_, _, _, _⟩⟩ := t
  simp only [State.toList, Column.toList, List.cons_append, List.nil_append, List.cons.injEq] at h
  simp only [State.mk.injEq, Column.mk.injEq]
  tauto

theorem ofBlock_toBlock (s : State) : State.ofBlock s.toBlock = s := by
  apply toList_injective
  rw [toList_ofBlock]
  exact toBeBytes_fromBeBytes (n := 16) s.toList rfl

theorem invSubByte_subByte (b : UInt8) : invSubByte (subByte b) = b := by
  revert b
  decide +kernel

theorem invSubBytes_subBytes (s : State) : invSubBytes (subBytes s) = s := by
  simp only [invSubBytes, subBytes, State.mapColumns, Column.map, invSubByte_subByte]

theorem invShiftRows_shiftRows (s : State) : invShiftRows (shiftRows s) = s := rfl

theorem addRoundKey_addRoundKey (k s : State) : addRoundKey k (addRoundKey k s) = s := by
  simp only [addRoundKey, Column.xor, ← UInt8.xor_assoc, UInt8.xor_self, UInt8.zero_xor]

theorem xor_left_comm (a b c : UInt8) : a ^^^ (b ^^^ c) = b ^^^ (a ^^^ c) := by
  rw [← UInt8.xor_assoc, UInt8.xor_comm a b, UInt8.xor_assoc]

theorem xor_and (a b c : UInt8) : (a ^^^ b) &&& c = (a &&& c) ^^^ (b &&& c) := by
  apply UInt8.toBitVec_inj.mp
  apply BitVec.eq_of_getLsbD_eq
  intro i _
  simp [Bool.and_xor_distrib_right]

theorem top_bit (b : UInt8) : b &&& 0x80 = 0 ∨ b &&& 0x80 = 0x80 := by
  have hbit := BitVec.and_twoPow b.toBitVec 7
  split_ifs at hbit
  · exact .inr (UInt8.toBitVec_inj.mp hbit)
  · exact .inl (UInt8.toBitVec_inj.mp hbit)

-- The top bit is linear, so the reductions of a sum add up.
theorem xtime_xor (a b : UInt8) : xtime (a ^^^ b) = xtime a ^^^ xtime b := by
  unfold xtime
  rw [xor_and, UInt8.shiftLeft_xor]
  rcases top_bit a with ha | ha
  · rcases top_bit b with hb | hb
    · simp [ha, hb]
    · simp [ha, hb, UInt8.xor_assoc]
  · rcases top_bit b with hb | hb
    · simp [ha, hb, UInt8.xor_assoc, UInt8.xor_comm (b <<< 1)]
    · simp only [ha, hb, UInt8.xor_self, if_true, UInt8.xor_zero, UInt8.xor_assoc]
      rw [xor_left_comm _ (b <<< 1)]
      simp

theorem mul9_xor (a b : UInt8) : mul9 (a ^^^ b) = mul9 a ^^^ mul9 b := by
  simp only [mul9, xtime_xor]
  ac_rfl

theorem mul11_xor (a b : UInt8) : mul11 (a ^^^ b) = mul11 a ^^^ mul11 b := by
  simp only [mul11, xtime_xor]
  ac_rfl

theorem mul13_xor (a b : UInt8) : mul13 (a ^^^ b) = mul13 a ^^^ mul13 b := by
  simp only [mul13, xtime_xor]
  ac_rfl

theorem mul14_xor (a b : UInt8) : mul14 (a ^^^ b) = mul14 a ^^^ mul14 b := by
  simp only [mul14, xtime_xor]
  ac_rfl

-- The entries of the product of the two matrices, one for each diagonal: the
-- identity on the main one, zero on the others.
theorem diagonal_entries (b : UInt8) :
    (mul14 (xtime b) ^^^ mul11 b ^^^ mul13 b ^^^ (mul9 (xtime b) ^^^ mul9 b) = b) ∧
    (mul14 (xtime b) ^^^ mul14 b ^^^ mul11 (xtime b) ^^^ mul13 b ^^^ mul9 b = 0) ∧
    (mul14 b ^^^ (mul11 (xtime b) ^^^ mul11 b) ^^^ mul13 (xtime b) ^^^ mul9 b = 0) ∧
    (mul14 b ^^^ mul11 b ^^^ (mul13 (xtime b) ^^^ mul13 b) ^^^ mul9 (xtime b) = 0) := by
  revert b
  decide +kernel

theorem product_row (a b c d : UInt8) :
    (mul14 (xtime a) ^^^ (mul14 (xtime b) ^^^ mul14 b) ^^^ mul14 c ^^^ mul14 d) ^^^
      (mul11 a ^^^ mul11 (xtime b) ^^^ (mul11 (xtime c) ^^^ mul11 c) ^^^ mul11 d) ^^^
      (mul13 a ^^^ mul13 b ^^^ mul13 (xtime c) ^^^ (mul13 (xtime d) ^^^ mul13 d)) ^^^
      ((mul9 (xtime a) ^^^ mul9 a) ^^^ mul9 b ^^^ mul9 c ^^^ mul9 (xtime d)) = a := by
  obtain ⟨ha, -, -, -⟩ := diagonal_entries a
  obtain ⟨-, hb, -, -⟩ := diagonal_entries b
  obtain ⟨-, -, hc, -⟩ := diagonal_entries c
  obtain ⟨-, -, -, hd⟩ := diagonal_entries d
  calc
    _ = (mul14 (xtime a) ^^^ mul11 a ^^^ mul13 a ^^^ (mul9 (xtime a) ^^^ mul9 a)) ^^^
        (mul14 (xtime b) ^^^ mul14 b ^^^ mul11 (xtime b) ^^^ mul13 b ^^^ mul9 b) ^^^
        (mul14 c ^^^ (mul11 (xtime c) ^^^ mul11 c) ^^^ mul13 (xtime c) ^^^ mul9 c) ^^^
        (mul14 d ^^^ mul11 d ^^^ (mul13 (xtime d) ^^^ mul13 d) ^^^ mul9 (xtime d)) := by ac_rfl
    _ = a := by rw [ha, hb, hc, hd, UInt8.xor_zero, UInt8.xor_zero, UInt8.xor_zero]

-- Both matrices are circulant, so each row is the first one at a rotated column.
theorem invMixColumn_mixColumn (c : Column) : invMixColumn (mixColumn c) = c := by
  obtain ⟨b0, b1, b2, b3⟩ := c
  simp only [invMixColumn, mixColumn, mul9_xor, mul11_xor, mul13_xor, mul14_xor, Column.mk.injEq]
  refine ⟨product_row b0 b1 b2 b3, ?_, ?_, ?_⟩
  · refine Eq.trans ?_ (product_row b1 b2 b3 b0)
    ac_rfl
  · refine Eq.trans ?_ (product_row b2 b3 b0 b1)
    ac_rfl
  · refine Eq.trans ?_ (product_row b3 b0 b1 b2)
    ac_rfl

theorem decryptRound_encryptRound (k s : State) : decryptRound k (encryptRound s k) = s := by
  simp only [decryptRound, encryptRound, addRoundKey_addRoundKey, State.mapColumns,
    invMixColumn_mixColumn]
  exact invSubBytes_subBytes s

theorem foldr_decryptRound_foldl_encryptRound (keys : List State) (s : State) :
    keys.foldr decryptRound (keys.foldl encryptRound s) = s := by
  induction keys generalizing s with
  | nil => rfl
  | cons k keys ih =>
      rw [List.foldl_cons, List.foldr_cons, ih, decryptRound_encryptRound]

theorem decryptState_encryptState (keys : Schedule) (s : State) :
    decryptState keys (encryptState keys s) = s := by
  simp only [decryptState, encryptState, addRoundKey_addRoundKey, invShiftRows_shiftRows,
    invSubBytes_subBytes, foldr_decryptRound_foldl_encryptRound]

theorem decrypt_encrypt (key block : BitVec 128) : decrypt key (encrypt key block) = block := by
  rw [decrypt, encrypt, ofBlock_toBlock, decryptState_encryptState, toBlock_ofBlock]

-- The cipher's published test vector.
example : encrypt 0x000102030405060708090a0b0c0d0e0f 0x00112233445566778899aabbccddeeff =
    0x69c4e0d86a7b0430d8cdb78070b4c55a := by
  decide +kernel

end Mumble.Lib.Aes
