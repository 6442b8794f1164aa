import Mathlib.Data.List.Basic

namespace Mumble

-- The two `io::ErrorKind`s the decoders produce.
inductive IoError where
  | UnexpectedEof
  | InvalidData (message : String)
  deriving DecidableEq, Repr

-- `io::Cursor` over a byte buffer: the bytes read so far are only counted,
-- since nothing seeks backwards.
structure Cursor where
  position : Nat
  rest : List UInt8
  deriving DecidableEq, Repr

namespace Cursor

def new (buf : List UInt8) : Cursor := ⟨0, buf⟩

def readU8 (c : Cursor) : Except IoError (UInt8 × Cursor) :=
  match c.rest with
  | [] => .error .UnexpectedEof
  | b :: rest => .ok (b, ⟨c.position + 1, rest⟩)

end Cursor

-- `ReadExt::read_varint`, from the cursor at `position` with `rest` unread. The
-- byte 0b1111_10xx negates the varint that follows it.
def readVarint (position : Nat) : (rest : List UInt8) → Except IoError (UInt64 × Cursor)
  | [] => .error .UnexpectedEof
  | b0 :: rest =>
      if b0 &&& 0b1111_1100 = 0b1111_1000 then
        match readVarint (position + 1) rest with
        | .error e => .error e
        | .ok (value, c) => .ok (~~~value, c)
      else if b0 &&& 0b1111_1100 = 0b1111_1100 then
        .ok (~~~(b0 &&& 0x03).toUInt64, ⟨position + 1, rest⟩)
      else if b0 &&& 0b1000_0000 = 0 then
        .ok ((b0 &&& 0b0111_1111).toUInt64, ⟨position + 1, rest⟩)
      else do
        let (b1, c) ← Cursor.readU8 ⟨position + 1, rest⟩
        if b0 &&& 0b0100_0000 = 0 then
          return ((b0 &&& 0b0011_1111).toUInt64 <<< 8 ||| b1.toUInt64, c)
        let (b2, c) ← c.readU8
        if b0 &&& 0b0010_0000 = 0 then
          return ((b0 &&& 0b0001_1111).toUInt64 <<< 16 ||| b1.toUInt64 <<< 8 ||| b2.toUInt64, c)
        let (b3, c) ← c.readU8
        if b0 &&& 0b0001_0000 = 0 then
          return ((b0 &&& 0x0F).toUInt64 <<< 24 ||| b1.toUInt64 <<< 16 ||| b2.toUInt64 <<< 8 |||
            b3.toUInt64, c)
        let (b4, c) ← c.readU8
        if b0 &&& 0b0000_0100 = 0 then
          return (b1.toUInt64 <<< 24 ||| b2.toUInt64 <<< 16 ||| b3.toUInt64 <<< 8 ||| b4.toUInt64, c)
        let (b5, c) ← c.readU8
        let (b6, c) ← c.readU8
        let (b7, c) ← c.readU8
        let (b8, c) ← c.readU8
        return (b1.toUInt64 <<< 56 ||| b2.toUInt64 <<< 48 ||| b3.toUInt64 <<< 40 |||
          b4.toUInt64 <<< 32 ||| b5.toUInt64 <<< 24 ||| b6.toUInt64 <<< 16 ||| b7.toUInt64 <<< 8 |||
          b8.toUInt64, c)

def Cursor.readVarint (c : Cursor) : Except IoError (UInt64 × Cursor) :=
  Mumble.readVarint c.position c.rest

theorem mask_le_of_and_eq {value mask : UInt64} (h : value &&& mask = mask) :
    mask.toNat ≤ value.toNat := by
  have heq := congrArg UInt64.toNat h
  rw [UInt64.toNat_and] at heq
  exact Nat.le_trans (Nat.le_of_eq heq.symm) Nat.and_le_left

-- `WriteExt::write_varint`. The complement has bit 63 clear, so the source's
-- recursion is one level deep.
def writeVarint (value : UInt64) : List UInt8 :=
  if value &&& 0xffff_ffff_ffff_fffc = 0xffff_ffff_ffff_fffc then
    [(0b1111_1100 : UInt8) ||| (~~~value).toUInt8]
  else if value &&& 0x8000_0000_0000_0000 = 0x8000_0000_0000_0000 then
    0b1111_1000 :: writeVarint (~~~value)
  else if value > 0xffff_ffff then
    [0b1111_0100, (value >>> 56).toUInt8, (value >>> 48).toUInt8, (value >>> 40).toUInt8,
      (value >>> 32).toUInt8, (value >>> 24).toUInt8, (value >>> 16).toUInt8,
      (value >>> 8).toUInt8, value.toUInt8]
  else if value > 0x0fff_ffff then
    [0b1111_0000, (value >>> 24).toUInt8, (value >>> 16).toUInt8, (value >>> 8).toUInt8,
      value.toUInt8]
  else if value > 0x001f_ffff then
    [(0b1110_0000 : UInt8) ||| (value >>> 24).toUInt8, (value >>> 16).toUInt8, (value >>> 8).toUInt8,
      value.toUInt8]
  else if value > 0x0000_3fff then
    [(0b1100_0000 : UInt8) ||| (value >>> 16).toUInt8, (value >>> 8).toUInt8, value.toUInt8]
  else if value > 0x0000_007f then
    [(0b1000_0000 : UInt8) ||| (value >>> 8).toUInt8, value.toUInt8]
  else [value.toUInt8]
termination_by (value >>> 63).toNat
decreasing_by
  rename_i h
  have hv : 2 ^ 63 ≤ value.toNat := mask_le_of_and_eq h
  have hlt := value.toNat_lt
  simp only [UInt64.toNat_shiftRight, UInt64.toNat_not, Nat.shiftRight_eq_div_pow,
    UInt64.reduceToNat, Nat.reduceMod, UInt64.size]
  omega

-- `BufMutExt::put_varint`.
def putVarint (dst : List UInt8) (value : UInt64) : List UInt8 := dst ++ writeVarint value

end Mumble
