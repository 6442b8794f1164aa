import Mumble.Crypt

namespace Mumble

open Mumble.Lib

namespace Block

@[simp] theorem length_toBeBytes (x : Block) : (Block.toBeBytes x).length = 16 :=
  Lib.length_toBeBytes (n := 16) x

theorem fromBeBytes_toBeBytes (x : Block) : Block.fromBeBytes (Block.toBeBytes x) = x :=
  Lib.fromBeBytes_toBeBytes (n := 16) x

theorem toBeBytes_fromBeBytes {bytes : List UInt8} (h : bytes.length = 16) :
    Block.toBeBytes (Block.fromBeBytes bytes) = bytes :=
  Lib.toBeBytes_fromBeBytes (n := 16) bytes h

theorem toBeBytes_xor (x y : Block) :
    Block.toBeBytes (x ^^^ y) =
      List.zipWith (· ^^^ ·) (Block.toBeBytes x) (Block.toBeBytes y) :=
  Lib.toBeBytes_xor (n := 16) x y

end Block

variable {aes : Aes128} {buf : List UInt8}

theorem ocbEncryptLoop_last (offset checksum : Block) (h : buf.length ≤ 16) :
    ocbEncryptLoop aes buf offset checksum = .ok ([], buf, offset, checksum) := by
  rw [ocbEncryptLoop, if_neg (by simp only [BLOCK_SIZE]; omega)]

theorem ocbDecryptLoop_last (offset checksum : Block) (h : buf.length ≤ 16) :
    ocbDecryptLoop aes buf offset checksum = .ok ([], buf, offset, checksum) := by
  rw [ocbDecryptLoop, if_neg (by simp only [BLOCK_SIZE]; omega)]

theorem splitAt_chunk (chunk : Block) {rest : List UInt8} (hrest : rest ≠ []) :
    BLOCK_SIZE < (chunk.toBeBytes ++ rest).length ∧
      splitAt (chunk.toBeBytes ++ rest) BLOCK_SIZE = .ok (chunk.toBeBytes, rest) := by
  have hpos := List.length_pos_of_ne_nil hrest
  have hlong : BLOCK_SIZE < (chunk.toBeBytes ++ rest).length := by
    simp only [BLOCK_SIZE, List.length_append, Block.length_toBeBytes]
    omega
  refine ⟨hlong, ?_⟩
  rw [splitAt_eq (Nat.le_of_lt hlong)]
  simp [BLOCK_SIZE]

theorem ocbEncryptLoop_block (offset checksum : Block) (chunk : Block) (rest : List UInt8)
    (hrest : rest ≠ []) :
    ocbEncryptLoop aes (chunk.toBeBytes ++ rest) offset checksum =
      (do
        let (done, rest, offset', checksum') ←
          ocbEncryptLoop aes rest (s2 offset) (checksum ^^^ chunk)
        return ((aes.encryptBlock (s2 offset ^^^ chunk) ^^^ s2 offset).toBeBytes ++ done,
          rest, offset', checksum')) := by
  obtain ⟨hlong, hsplit⟩ := splitAt_chunk chunk hrest
  rw [ocbEncryptLoop, if_pos hlong]
  split
  · rename_i hs
    rw [hsplit] at hs
    cases hs
  · rename_i hs
    rw [hsplit] at hs
    cases hs
    rw [tryInto_eq (by simp [BLOCK_SIZE])]
    simp only [Exec.ok_bind, Block.fromBeBytes_toBeBytes]

theorem ocbDecryptLoop_block (offset checksum : Block) {chunk plain : Block} {rest : List UInt8}
    (hrest : rest ≠ [])
    (hplain : aes.decryptBlock (s2 offset ^^^ chunk) ^^^ s2 offset = plain) :
    ocbDecryptLoop aes (chunk.toBeBytes ++ rest) offset checksum =
      (do
        let (done, rest, offset', checksum') ←
          ocbDecryptLoop aes rest (s2 offset) (checksum ^^^ plain)
        return (plain.toBeBytes ++ done, rest, offset', checksum')) := by
  obtain ⟨hlong, hsplit⟩ := splitAt_chunk chunk hrest
  rw [ocbDecryptLoop, if_pos hlong]
  split
  · rename_i hs
    rw [hsplit] at hs
    cases hs
  · rename_i hs
    rw [hsplit] at hs
    cases hs
    rw [tryInto_eq (by simp [BLOCK_SIZE])]
    simp only [Exec.ok_bind, Block.fromBeBytes_toBeBytes, hplain]

-- A buffer longer than a block is one whole block and a non-empty rest.
theorem exists_chunk (h : 16 < buf.length) :
    ∃ (chunk : Block) (rest : List UInt8),
      buf = chunk.toBeBytes ++ rest ∧ rest ≠ [] ∧ rest.length < buf.length := by
  have hlen : (buf.take 16).length = 16 := by rw [List.length_take]; omega
  refine ⟨Block.fromBeBytes (buf.take 16), buf.drop 16, ?_, ?_, ?_⟩
  · rw [Block.toBeBytes_fromBeBytes hlen, List.take_append_drop]
  · intro he
    have := congrArg List.length he
    simp only [List.length_drop, List.length_nil] at this
    omega
  · rw [List.length_drop]
    omega

theorem xor_decrypt_encrypt (hinv : aes.Inverse) (offset plain : Block) :
    aes.decryptBlock (offset ^^^ (aes.encryptBlock (offset ^^^ plain) ^^^ offset)) ^^^ offset =
      plain := by
  rw [BitVec.xor_comm (aes.encryptBlock _), ← BitVec.xor_assoc, BitVec.xor_self,
    BitVec.zero_xor, hinv, BitVec.xor_comm offset, BitVec.xor_assoc, BitVec.xor_self,
    BitVec.xor_zero]

-- The two loops stay in step: on the ciphertext of the whole blocks followed by
-- any last block of the same length, decryption gives back the plaintext and
-- ends with the same offset and checksum.
theorem ocbDecryptLoop_ocbEncryptLoop (hinv : aes.Inverse) (buf : List UInt8)
    (offset checksum : Block) :
    ∃ (plain done rest : List UInt8) (offset' checksum' : Block),
      ocbEncryptLoop aes buf offset checksum = .ok (done, rest, offset', checksum') ∧
      buf = plain ++ rest ∧ done.length = plain.length ∧ rest.length ≤ 16 ∧
      (buf ≠ [] → rest ≠ []) ∧
      ∀ last : List UInt8, last.length = rest.length →
        ocbDecryptLoop aes (done ++ last) offset checksum =
          .ok (plain, last, offset', checksum') := by
  induction hn : buf.length using Nat.strongRecOn generalizing buf offset checksum with
  | _ n ih =>
      by_cases h : buf.length ≤ 16
      · refine ⟨[], [], buf, offset, checksum, ocbEncryptLoop_last _ _ h, rfl, rfl, h, id, ?_⟩
        intro last hl
        exact ocbDecryptLoop_last _ _ (by simp only [List.nil_append]; omega)
      · obtain ⟨chunk, tail, rfl, htail, hlt⟩ := exists_chunk (by omega : 16 < buf.length)
        obtain ⟨plain, done, rest, offset', checksum', henc, hsplit, hlen, hrest, hne, hdec⟩ :=
          ih tail.length (by omega) tail (s2 offset) (checksum ^^^ chunk) rfl
        refine ⟨chunk.toBeBytes ++ plain,
          (aes.encryptBlock (s2 offset ^^^ chunk) ^^^ s2 offset).toBeBytes ++ done, rest,
          offset', checksum', ?_, ?_, ?_, hrest, fun _ => hne htail, ?_⟩
        · rw [ocbEncryptLoop_block _ _ _ _ htail, henc]
          rfl
        · rw [hsplit, List.append_assoc]
        · simp [hlen]
        · intro last hl
          have hlast : done ++ last ≠ [] := by
            intro he
            have hz := congrArg List.length he
            have hr := List.length_pos_of_ne_nil (hne htail)
            simp only [List.length_append, List.length_nil] at hz
            omega
          rw [List.append_assoc,
            ocbDecryptLoop_block _ _ hlast (xor_decrypt_encrypt hinv (s2 offset) chunk),
            hdec last hl]
          rfl

-- The last block: what the cipher pads with cancels, so the bytes past the end
-- of the ciphertext are the zeros that decryption puts there.
theorem drop_toBeBytes_xor_pad (pad : Block) (buf : List UInt8) (h : buf.length ≤ 16) :
    (Block.toBeBytes (pad ^^^ Block.fromBeBytes (buf ++ pad.toBeBytes.drop buf.length))).drop
      buf.length = List.replicate (16 - buf.length) 0 := by
  have hlen : (buf ++ pad.toBeBytes.drop buf.length).length = 16 := by
    simp only [List.length_append, List.length_drop, Block.length_toBeBytes]
    omega
  rw [Block.toBeBytes_xor, Block.toBeBytes_fromBeBytes hlen, List.drop_zipWith, List.drop_left,
    List.zipWith_self]
  simp only [UInt8.xor_self, List.map_const', List.length_drop, Block.length_toBeBytes]

theorem ocbDecryptTail_ocbEncryptTail (aes : Aes128) (buf : List UInt8) (offset checksum : Block)
    (h : buf.length ≤ 16) :
    ∃ (sealed : List UInt8) (tag : Block),
      ocbEncryptTail aes buf offset checksum = .ok (sealed, tag) ∧
      sealed.length = buf.length ∧
      ocbDecryptTail aes sealed offset checksum = .ok (buf, tag) := by
  -- the padding block and the padded plaintext, as both sides compute them
  obtain ⟨pad, hpad⟩ : ∃ pad, pad =
      aes.encryptBlock (BitVec.ofNat 128 (buf.length * 8) ^^^ s2 offset) := ⟨_, rfl⟩
  obtain ⟨plain, hplain⟩ : ∃ plain, plain =
      Block.fromBeBytes (buf ++ pad.toBeBytes.drop buf.length) := ⟨_, rfl⟩
  have hblock : (buf ++ pad.toBeBytes.drop buf.length).length = 16 := by
    simp only [List.length_append, List.length_drop, Block.length_toBeBytes]
    omega
  have hsealed : ((pad ^^^ plain).toBeBytes.take buf.length).length = buf.length := by
    rw [List.length_take, Block.length_toBeBytes]
    omega
  have hzero : (pad ^^^ plain).toBeBytes.take buf.length ++ List.replicate (16 - buf.length) 0 =
      (pad ^^^ plain).toBeBytes := by
    rw [hplain, ← drop_toBeBytes_xor_pad pad buf h, List.take_append_drop]
  have hback : pad ^^^ plain ^^^ pad = plain := by
    rw [BitVec.xor_comm pad plain, BitVec.xor_assoc, BitVec.xor_self, BitVec.xor_zero]
  have hbuf : plain.toBeBytes.take buf.length = buf := by
    rw [hplain, Block.toBeBytes_fromBeBytes hblock, List.take_left]
  refine ⟨(pad ^^^ plain).toBeBytes.take buf.length,
    aes.encryptBlock (s2 offset ^^^ s2 (s2 offset) ^^^ (checksum ^^^ plain)), ?_, hsealed, ?_⟩
  · simp only [ocbEncryptTail, assert_eq (show buf.length ≤ BLOCK_SIZE from h), Exec.ok_bind,
      ← hpad]
    rw [copyFromSlice_eq (Nat.zero_le _) (by simpa using h) (by simp), Exec.ok_bind]
    simp only [List.take_zero, List.nil_append, ← hplain]
    rw [copyFromSlice_eq (Nat.zero_le _) (Nat.le_refl _) hsealed]
    simp
  · simp only [ocbDecryptTail, hsealed, assert_eq (show buf.length ≤ BLOCK_SIZE from h),
      Exec.ok_bind, ← hpad]
    rw [copyFromSlice_eq (Nat.zero_le _) (by simpa [BLOCK_SIZE] using h) hsealed,
      Exec.ok_bind]
    simp only [List.take_zero, List.nil_append, BLOCK_SIZE, List.drop_replicate, hzero,
      Block.fromBeBytes_toBeBytes, hback, hbuf]
    rw [copyFromSlice_eq (Nat.zero_le _) (Nat.le_of_eq hsealed.symm) (by simp)]
    simp [List.drop_eq_nil_of_le (Nat.le_of_eq hsealed)]

-- Decryption under the same nonce gives back the buffer and the same tag.
theorem ocbDecrypt_ocbEncrypt (hinv : aes.Inverse) (nonce : Block) (buf : List UInt8) :
    ∃ (sealed : List UInt8) (tag : Block),
      ocbEncrypt aes nonce buf = .ok (sealed, tag) ∧
      ocbDecrypt aes nonce sealed = .ok (buf, tag) := by
  obtain ⟨plain, done, rest, offset, checksum, henc, hsplit, -, hrest, -, hdec⟩ :=
    ocbDecryptLoop_ocbEncryptLoop hinv buf (aes.encryptBlock nonce.toBe) 0
  obtain ⟨sealed, tag, htail, hlen, hback⟩ :=
    ocbDecryptTail_ocbEncryptTail aes rest offset checksum hrest
  refine ⟨done ++ sealed, tag, ?_, ?_⟩
  · simp only [ocbEncrypt, henc, Exec.ok_bind, htail, Exec.pure_eq_ok]
  · simp only [ocbDecrypt, hdec sealed hlen, Exec.ok_bind, hback, Exec.pure_eq_ok, hsplit]

-- Encryption and decryption return on every buffer: no length reaches the
-- assertion.
theorem ocbEncryptLoop_returns (aes : Aes128) (buf : List UInt8) (offset checksum : Block) :
    ∃ (done rest : List UInt8) (offset' checksum' : Block),
      ocbEncryptLoop aes buf offset checksum = .ok (done, rest, offset', checksum') ∧
      rest.length ≤ 16 ∧ done.length + rest.length = buf.length := by
  induction hn : buf.length using Nat.strongRecOn generalizing buf offset checksum with
  | _ n ih =>
      by_cases h : buf.length ≤ 16
      · exact ⟨[], buf, offset, checksum, ocbEncryptLoop_last _ _ h, h, by simpa using hn⟩
      · obtain ⟨chunk, tail, rfl, htail, hlt⟩ := exists_chunk (by omega : 16 < buf.length)
        rw [ocbEncryptLoop_block _ _ _ _ htail]
        obtain ⟨done, rest, offset', checksum', henc, hrest, hlen⟩ := ih tail.length (by omega) tail
          (s2 offset) (checksum ^^^ chunk) rfl
        refine ⟨_, rest, offset', checksum', by simp only [henc, Exec.ok_bind]; rfl, hrest, ?_⟩
        simp only [List.length_append, Block.length_toBeBytes] at hn ⊢
        omega

theorem ocbEncrypt_returns (aes : Aes128) (nonce : Block) (buf : List UInt8) :
    ∃ (sealed : List UInt8) (tag : Block), ocbEncrypt aes nonce buf = .ok (sealed, tag) ∧
      sealed.length = buf.length := by
  obtain ⟨done, rest, offset, checksum, hloop, hrest, hlen⟩ :=
    ocbEncryptLoop_returns aes buf (aes.encryptBlock nonce.toBe) 0
  obtain ⟨sealed, tag, htail, hsealed, -⟩ :=
    ocbDecryptTail_ocbEncryptTail aes rest offset checksum hrest
  refine ⟨done ++ sealed, tag, by simp only [ocbEncrypt, hloop, Exec.ok_bind, htail]; rfl, ?_⟩
  rw [List.length_append, hsealed, hlen]

theorem ocbDecryptLoop_returns (aes : Aes128) (buf : List UInt8) (offset checksum : Block) :
    ∃ (done rest : List UInt8) (offset' checksum' : Block),
      ocbDecryptLoop aes buf offset checksum = .ok (done, rest, offset', checksum') ∧
      rest.length ≤ 16 ∧ done.length + rest.length = buf.length := by
  induction hn : buf.length using Nat.strongRecOn generalizing buf offset checksum with
  | _ n ih =>
      by_cases h : buf.length ≤ 16
      · exact ⟨[], buf, offset, checksum, ocbDecryptLoop_last _ _ h, h, by simpa using hn⟩
      · obtain ⟨chunk, tail, rfl, htail, hlt⟩ := exists_chunk (by omega : 16 < buf.length)
        rw [ocbDecryptLoop_block _ _ htail rfl]
        obtain ⟨done, rest, offset', checksum', hdec, hrest, hlen⟩ := ih tail.length (by omega) tail
          (s2 offset) (checksum ^^^ (aes.decryptBlock (s2 offset ^^^ chunk) ^^^ s2 offset)) rfl
        refine ⟨_, rest, offset', checksum', by simp only [hdec, Exec.ok_bind]; rfl, hrest, ?_⟩
        simp only [List.length_append, Block.length_toBeBytes] at hn ⊢
        omega

theorem ocbDecrypt_returns (aes : Aes128) (nonce : Block) (buf : List UInt8) :
    ∃ (plain : List UInt8) (tag : Block), ocbDecrypt aes nonce buf = .ok (plain, tag) ∧
      plain.length = buf.length := by
  obtain ⟨done, rest, offset, checksum, hloop, hrest, hlen⟩ :=
    ocbDecryptLoop_returns aes buf (aes.encryptBlock nonce.toBe) 0
  have hblock : ∀ plain : Block, (plain.toBeBytes.take rest.length).length = rest.length - 0 := by
    intro plain
    rw [List.length_take, Block.length_toBeBytes]
    omega
  simp only [ocbDecrypt, hloop, Exec.ok_bind, ocbDecryptTail]
  rw [assert_eq (show rest.length ≤ BLOCK_SIZE from hrest), Exec.ok_bind,
    copyFromSlice_eq (Nat.zero_le _) (by simpa [BLOCK_SIZE] using hrest) (by simp), Exec.ok_bind,
    copyFromSlice_eq (Nat.zero_le _) (Nat.le_refl _) (hblock _)]
  refine ⟨_, _, rfl, ?_⟩
  simp only [List.length_append, List.length_take, List.length_drop, Block.length_toBeBytes]
  omega

end Mumble
