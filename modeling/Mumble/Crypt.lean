import Mumble.Lib.Aes
import Mumble.Proto

namespace Mumble

open Mumble.Lib

-- `std::time::Instant`, in nanoseconds. `duration_since` saturates at zero, as
-- subtraction of naturals does.
abbrev Instant := Nat

-- `u128`. A block of bytes is read as one big-endian.
abbrev Block := BitVec 128

def KEY_SIZE : Nat := 16
def BLOCK_SIZE : Nat := 16

def Block.toBeBytes (x : Block) : List UInt8 := Lib.toBeBytes (n := 16) x
def Block.toLeBytes (x : Block) : List UInt8 := Lib.toLeBytes (n := 16) x
def Block.fromBeBytes (bytes : List UInt8) : Block := Lib.fromBeBytes 16 bytes
def Block.fromLeBytes (bytes : List UInt8) : Block := Lib.fromLeBytes 16 bytes

-- `u128::to_be` on a little-endian target: the bytes in reverse.
def Block.toBe (x : Block) : Block := Block.fromBeBytes x.toLeBytes

-- `x as u8`.
def Block.asU8 (x : Block) : UInt8 := UInt8.ofBitVec (x.setWidth 8)

-- `aes::Aes128` under one key. The crate is outside the repository, so the model
-- holds for any pair of block functions.
structure Aes128 where
  encryptBlock : Block → Block
  decryptBlock : Block → Block

-- `Aes128::new`.
def Aes128.new (key : Vector UInt8 KEY_SIZE) : Aes128 where
  encryptBlock := Aes.encrypt (Block.fromBeBytes key.toList)
  decryptBlock := Aes.decrypt (Block.fromBeBytes key.toList)

-- What the crate promises: decryption undoes encryption under the same key.
def Aes128.Inverse (aes : Aes128) : Prop :=
  ∀ block, aes.decryptBlock (aes.encryptBlock block) = block

structure CryptState where
  key : Vector UInt8 KEY_SIZE
  encryptNonce : Block
  decryptNonce : Block
  -- `[u8; 0x100]`, indexed by a byte.
  decryptHistory : UInt8 → UInt8
  aes : Aes128
  good : UInt32
  late : UInt32
  lost : UInt32
  resync : UInt32
  lastGood : Instant
  remoteLate : UInt32
  remoteGood : UInt32
  remoteLost : UInt32
  remoteResync : UInt32

def s2 (block : Block) : Block :=
  let rot := block.rotateLeft 1
  let carry := rot &&& 1
  rot ^^^ (carry * 0x86)

-- The whole blocks of `ocb_encrypt`: the ciphertext so far, the bytes left,
-- the offset and the checksum.
def ocbEncryptLoop (aes : Aes128) (buf : List UInt8) (offset checksum : Block) :
    Exec (List UInt8 × List UInt8 × Block × Block) :=
  if BLOCK_SIZE < buf.length then
    match _h : splitAt buf BLOCK_SIZE with
    | .error p => .error p
    | .ok (chunk, remainder) => do
        let chunk ← tryInto chunk BLOCK_SIZE
        let offset := s2 offset
        let plain := Block.fromBeBytes chunk
        let encrypted := aes.encryptBlock (offset ^^^ plain) ^^^ offset
        let (done, rest, offset, checksum) ←
          ocbEncryptLoop aes remainder offset (checksum ^^^ plain)
        return (encrypted.toBeBytes ++ done, rest, offset, checksum)
  else .ok ([], buf, offset, checksum)
termination_by buf.length
decreasing_by
  have h := _h
  unfold splitAt at h
  split_ifs at h
  simp only [Except.ok.injEq, Prod.mk.injEq] at h
  obtain ⟨-, rfl⟩ := h
  simp only [BLOCK_SIZE, List.length_drop] at *
  omega

-- The last, possibly empty block of `ocb_encrypt`.
def ocbEncryptTail (aes : Aes128) (buf : List UInt8) (offset checksum : Block) :
    Exec (List UInt8 × Block) := do
  let offset := s2 offset
  let len := buf.length
  assert (len ≤ BLOCK_SIZE)
  let pad := aes.encryptBlock (BitVec.ofNat 128 (len * 8) ^^^ offset)
  let block ← copyFromSlice pad.toBeBytes 0 len buf
  let plain := Block.fromBeBytes block
  let encrypted := pad ^^^ plain
  let buf ← copyFromSlice buf 0 len (encrypted.toBeBytes.take len)
  let checksum := checksum ^^^ plain
  return (buf, aes.encryptBlock (offset ^^^ s2 offset ^^^ checksum))

def ocbEncrypt (aes : Aes128) (nonce : Block) (buf : List UInt8) : Exec (List UInt8 × Block) := do
  let offset := aes.encryptBlock nonce.toBe
  let (done, rest, offset, checksum) ← ocbEncryptLoop aes buf offset 0
  let (rest, tag) ← ocbEncryptTail aes rest offset checksum
  return (done ++ rest, tag)

def ocbDecryptLoop (aes : Aes128) (buf : List UInt8) (offset checksum : Block) :
    Exec (List UInt8 × List UInt8 × Block × Block) :=
  if BLOCK_SIZE < buf.length then
    match _h : splitAt buf BLOCK_SIZE with
    | .error p => .error p
    | .ok (chunk, remainder) => do
        let chunk ← tryInto chunk BLOCK_SIZE
        let offset := s2 offset
        let encrypted := Block.fromBeBytes chunk
        let plain := aes.decryptBlock (offset ^^^ encrypted) ^^^ offset
        let (done, rest, offset, checksum) ←
          ocbDecryptLoop aes remainder offset (checksum ^^^ plain)
        return (plain.toBeBytes ++ done, rest, offset, checksum)
  else .ok ([], buf, offset, checksum)
termination_by buf.length
decreasing_by
  have h := _h
  unfold splitAt at h
  split_ifs at h
  simp only [Except.ok.injEq, Prod.mk.injEq] at h
  obtain ⟨-, rfl⟩ := h
  simp only [BLOCK_SIZE, List.length_drop] at *
  omega

def ocbDecryptTail (aes : Aes128) (buf : List UInt8) (offset checksum : Block) :
    Exec (List UInt8 × Block) := do
  let offset := s2 offset
  let len := buf.length
  assert (len ≤ BLOCK_SIZE)
  let pad := aes.encryptBlock (BitVec.ofNat 128 (len * 8) ^^^ offset)
  let block ← copyFromSlice (List.replicate BLOCK_SIZE 0) 0 len buf
  let plain := Block.fromBeBytes block ^^^ pad
  let buf ← copyFromSlice buf 0 len (plain.toBeBytes.take len)
  let checksum := checksum ^^^ plain
  return (buf, aes.encryptBlock (offset ^^^ s2 offset ^^^ checksum))

def ocbDecrypt (aes : Aes128) (nonce : Block) (buf : List UInt8) : Exec (List UInt8 × Block) := do
  let offset := aes.encryptBlock nonce.toBe
  let (done, rest, offset, checksum) ← ocbDecryptLoop aes buf offset 0
  let (rest, tag) ← ocbDecryptTail aes rest offset checksum
  return (done ++ rest, tag)

namespace CryptState

-- `CryptState::default`, for the key drawn from the system and its cipher.
def default (key : Vector UInt8 KEY_SIZE) (aes : Aes128) (now : Instant) : CryptState where
  key := key
  encryptNonce := 0
  decryptNonce := 1 <<< 127
  decryptHistory := fun _ => 0
  aes := aes
  good := 0
  late := 0
  lost := 0
  resync := 0
  lastGood := now
  remoteLate := 0
  remoteGood := 0
  remoteLost := 0
  remoteResync := 0

def reset (c : CryptState) (now : Instant) : CryptState :=
  { c with
    encryptNonce := 0
    decryptNonce := 1 <<< 127
    decryptHistory := fun _ => 0
    good := 0
    late := 0
    lost := 0
    resync := 0
    lastGood := now }

def getEncryptNonce (c : CryptState) : List UInt8 := c.encryptNonce.toLeBytes

def getDecryptNonce (c : CryptState) : List UInt8 := c.decryptNonce.toLeBytes

def setDecryptNonce (c : CryptState) (nonce : List UInt8) : Exec CryptState := do
  let bytes ← tryInto nonce 16
  return { c with decryptNonce := Block.fromLeBytes bytes, resync := c.resync + 1 }

def getCryptSetup (c : CryptState) : CryptSetup where
  key := some c.key.toList
  clientNonce := some c.getDecryptNonce
  serverNonce := some c.getEncryptNonce

def encrypt {dir : VoicePacketDst} (c : CryptState) (packet : VoicePacket dir)
    (dst : List UInt8) : Exec (CryptState × List UInt8) := do
  let c := { c with encryptNonce := c.encryptNonce + 1 }
  -- four bytes for the header: the low nonce byte and three tag bytes
  let dst := resize dst 4 0
  let (dst, inner) ← splitAt dst 4
  let inner := encodeVoicePacket packet inner
  let (inner, tag) ← ocbEncrypt c.aes c.encryptNonce inner
  let dst := dst ++ inner
  let dst ← copyFromSlice dst 0 1 [c.encryptNonce.asU8]
  let dst ← copyFromSlice dst 1 4 (tag.toBeBytes.take 3)
  return (c, dst)

-- The nonce a datagram's first byte stands for, whether the packet is late, and
-- the change to `lost`.
def reconstructNonce (c : CryptState) (nonce0 : UInt8) :
    Except DecryptError (Block × Bool × Int32) :=
  if (c.decryptNonce + 1).asU8 = nonce0 then .ok (c.decryptNonce + 1, false, 0)
  else
    let diff : Int8 := (nonce0 - c.decryptNonce.asU8).toInt8
    let nonce := c.decryptNonce + diff.toBitVec.signExtend 128
    if diff > 0 then .ok (nonce, false, (diff - 1).toInt32)
    else if diff > -30 then
      if c.decryptHistory nonce0 = Block.asU8 (nonce >>> 8) then .error .Repeat
      else .ok (nonce, true, -1)
    else .error .Late

-- What `decrypt` records once the tag check has passed. A late packet leaves
-- the nonce where it was.
def accept (c : CryptState) (now : Instant) (nonce0 : UInt8) (nonce : Block) (late : Bool)
    (lost : Int32) : CryptState :=
  { c with
    decryptHistory := Function.update c.decryptHistory nonce0 (Block.asU8 (nonce >>> 8))
    good := c.good + 1
    lastGood := now
    late := if late then c.late + 1 else c.late
    decryptNonce := if late then c.decryptNonce else nonce
    lost := (c.lost.toInt32 + lost).toUInt32 }

def decrypt (dst : VoicePacketDst) (c : CryptState) (now : Instant) (buf : List UInt8) :
    Exec (CryptState × Except DecryptError (VoicePacket dst)) :=
  if buf.length < 4 then .ok (c, .error .Eof)
  else do
    let (header, buf) ← splitTo buf 4
    let nonce0 ← index header 0
    match c.reconstructNonce nonce0 with
    | .error e => return (c, .error e)
    | .ok (nonce, late, lost) =>
        let (buf, tag) ← ocbDecrypt c.aes nonce buf
        if (header.drop 1).take 3 ≠ tag.toBeBytes.take 3 then return (c, .error .Mac)
        let packet ← decodeVoicePacket dst buf
        return (c.accept now nonce0 nonce late lost, packet)

end CryptState

end Mumble
