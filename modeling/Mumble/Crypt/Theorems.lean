import Mumble.Crypt.Ocb
import Mumble.Voice.Theorems

namespace Mumble

open Mumble.Lib

theorem Aes128.new_inverse (key : Vector UInt8 KEY_SIZE) : (Aes128.new key).Inverse :=
  fun block => Aes.decrypt_encrypt _ block

-- Whoever decrypts with the key and the nonce of the one who encrypts gets the buffer and
-- the tag back. Neither direction changes the length of any buffer.
theorem ocb_round_trip {sender receiver : CryptState} (hinverse : sender.aes.Inverse)
    (hkey : receiver.aes = sender.aes) (hnonce : receiver.decryptNonce = sender.encryptNonce)
    (buf : List UInt8) :
    (∃ sealed tag, ocbEncrypt sender.aes sender.encryptNonce buf = .ok (sealed, tag) ∧
      sealed.length = buf.length ∧
      ocbDecrypt receiver.aes receiver.decryptNonce sealed = .ok (buf, tag)) ∧
    ∃ plain tag, ocbDecrypt receiver.aes receiver.decryptNonce buf = .ok (plain, tag) ∧
      plain.length = buf.length := by
  refine ⟨?_, ocbDecrypt_returns ..⟩
  obtain ⟨sealed, tag, hseal, hopen⟩ := ocbDecrypt_ocbEncrypt hinverse sender.encryptNonce buf
  obtain ⟨sealed', tag', hseal', hlength⟩ := ocbEncrypt_returns sender.aes sender.encryptNonce buf
  rw [hseal] at hseal'
  cases hseal'
  rw [hkey, hnonce]
  exact ⟨sealed, tag, hseal, hlength, hopen⟩

-- Both ends of a connection in one state, under a key of zeros.
def zeroPeer : CryptState :=
  { CryptState.default (Vector.replicate 16 0) (.new (Vector.replicate 16 0)) 0 with
    encryptNonce := 5, decryptNonce := 5 }

-- One byte more than a block.
theorem ocb_round_trip_seventeen :
    ∃ sealed tag,
      ocbEncrypt zeroPeer.aes zeroPeer.encryptNonce (List.replicate 17 7) = .ok (sealed, tag) ∧
      sealed.length = 17 ∧
      ocbDecrypt zeroPeer.aes zeroPeer.decryptNonce sealed = .ok (List.replicate 17 7, tag) := by
  have hinverse : zeroPeer.aes.Inverse := Aes128.new_inverse _
  have hnonce : zeroPeer.decryptNonce = zeroPeer.encryptNonce := rfl
  obtain ⟨sealed, tag, hseal, hlength, hopen⟩ :=
    (ocb_round_trip hinverse rfl hnonce (List.replicate 17 7)).1
  exact ⟨sealed, tag, hseal, hlength.trans List.length_replicate, hopen⟩

namespace CryptState

variable {c : CryptState} {buf : List UInt8}

-- The datagram gets past the tag check of `decrypt`, under the nonce that its
-- first byte stands for.
structure Accepts (c : CryptState) (buf : List UInt8) (nonce : Block) (late : Bool)
    (lost : Int32) (plain : List UInt8) : Prop where
  long : 4 ≤ buf.length
  reconstructs : c.reconstructNonce (buf.headD 0) = .ok (nonce, late, lost)
  tagged : ∃ tag, ocbDecrypt c.aes nonce (buf.drop 4) = .ok (plain, tag) ∧
    ((buf.take 4).drop 1).take 3 = tag.toBeBytes.take 3

-- The same, computed.
def tryDatagram (c : CryptState) (buf : List UInt8) : Option (Block × Bool × Int32) :=
  if buf.length < 4 then none
  else
    match c.reconstructNonce (buf.headD 0) with
    | .error _ => none
    | .ok (nonce, late, lost) =>
        match ocbDecrypt c.aes nonce (buf.drop 4) with
        | .error _ => none
        | .ok (_, tag) =>
            if ((buf.take 4).drop 1).take 3 = tag.toBeBytes.take 3 then some (nonce, late, lost)
            else none

theorem Accepts.of_tryDatagram {nonce : Block} {late : Bool} {lost : Int32}
    (h : c.tryDatagram buf = some (nonce, late, lost)) :
    ∃ plain, c.Accepts buf nonce late lost plain := by
  unfold tryDatagram at h
  by_cases hlen : buf.length < 4
  · rw [if_pos hlen] at h
    cases h
  rw [if_neg hlen] at h
  cases hrec : c.reconstructNonce (buf.headD 0) with
  | error e =>
      rw [hrec] at h
      cases h
  | ok found =>
      obtain ⟨nonce', late', lost'⟩ := found
      obtain ⟨plain', tag, hdec, -⟩ := ocbDecrypt_returns c.aes nonce' (buf.drop 4)
      simp only [hrec, hdec] at h
      split_ifs at h with htag
      cases h
      exact ⟨plain', by omega, hrec, tag, hdec, htag⟩

-- The nonce and the plaintext are functions of the datagram.
theorem Accepts.unique {nonce nonce' : Block} {late late' : Bool} {lost lost' : Int32}
    {plain plain' : List UInt8} (h : c.Accepts buf nonce late lost plain)
    (h' : c.Accepts buf nonce' late' lost' plain') :
    nonce' = nonce ∧ late' = late ∧ lost' = lost ∧ plain' = plain := by
  have hsame := h'.reconstructs
  rw [h.reconstructs] at hsame
  cases hsame
  obtain ⟨tag, hdec, -⟩ := h.tagged
  obtain ⟨tag', hdec', -⟩ := h'.tagged
  rw [hdec] at hdec'
  cases hdec'
  exact ⟨rfl, rfl, rfl, rfl⟩

-- Everything a call of `decrypt` can do: refuse the datagram and leave the state
-- as it was, or accept it, record that, and hand on what the decoder returns.
theorem decrypt_cases (dst : VoicePacketDst) (c : CryptState) (now : Instant) (buf : List UInt8) :
    (∃ e, c.decrypt dst now buf = .ok (c, .error e) ∧
      ∀ nonce late lost plain, ¬c.Accepts buf nonce late lost plain) ∨
    ∃ nonce late lost plain packet, c.Accepts buf nonce late lost plain ∧
      decodeVoicePacket dst plain = .ok packet ∧
      c.decrypt dst now buf = .ok (c.accept now (buf.headD 0) nonce late lost, packet) := by
  unfold decrypt
  by_cases hlen : buf.length < 4
  · refine .inl ⟨.Eof, if_pos hlen, ?_⟩
    intro nonce late lost plain ha
    exact absurd ha.long (by omega)
  have hindex : index (buf.take 4) 0 = .ok (buf.headD 0) := by
    cases buf with
    | nil => simp at hlen
    | cons b rest => rfl
  rw [if_neg hlen, splitTo_eq (by omega), Exec.ok_bind]
  simp only [hindex, Exec.ok_bind]
  cases hrec : c.reconstructNonce (buf.headD 0) with
  | error e =>
      refine .inl ⟨e, rfl, ?_⟩
      intro nonce late lost plain ha
      rw [ha.reconstructs] at hrec
      cases hrec
  | ok found =>
      obtain ⟨nonce, late, lost⟩ := found
      obtain ⟨plain, tag, hdec, -⟩ := ocbDecrypt_returns c.aes nonce (buf.drop 4)
      simp only [hdec, Exec.ok_bind]
      by_cases htag : ((buf.take 4).drop 1).take 3 = tag.toBeBytes.take 3
      · obtain ⟨packet, hpacket⟩ := decodeVoicePacket_returns dst plain
        refine .inr ⟨nonce, late, lost, plain, packet, ⟨by omega, hrec, tag, hdec, htag⟩,
          hpacket, ?_⟩
        simp only [ne_eq, htag, not_true_eq_false, if_false, hpacket, Exec.ok_bind,
          Exec.pure_eq_ok]
      · refine .inl ⟨.Mac, by simp only [ne_eq, htag, not_false_eq_true, if_true]; rfl, ?_⟩
        intro nonce' late' lost' plain' ha
        -- the nonce and the tag are functions of the datagram
        have hsame := ha.reconstructs
        rw [hrec] at hsame
        cases hsame
        obtain ⟨tag', hdec', htag'⟩ := ha.tagged
        rw [hdec] at hdec'
        cases hdec'
        exact htag htag'

-- A datagram that passes is recorded as the check found it, and decoded.
theorem Accepts.decrypt {nonce : Block} {late : Bool} {lost : Int32} {plain : List UInt8}
    (h : c.Accepts buf nonce late lost plain) (dst : VoicePacketDst) (now : Instant) :
    ∃ packet, decodeVoicePacket dst plain = .ok packet ∧
      c.decrypt dst now buf = .ok (c.accept now (buf.headD 0) nonce late lost, packet) := by
  obtain ⟨e, -, hno⟩ | ⟨nonce', late', lost', plain', packet, h', hpacket, hcall⟩ :=
    decrypt_cases dst c now buf
  · exact absurd h (hno nonce late lost plain)
  · obtain ⟨rfl, rfl, rfl, rfl⟩ := h.unique h'
    exact ⟨packet, hpacket, hcall⟩

theorem Accepts.next {nonce : Block} {late : Bool} {lost : Int32} {plain : List UInt8}
    (h : c.Accepts buf nonce late lost plain) {dst : VoicePacketDst} {now : Instant}
    {c' : CryptState} {packet : Except DecryptError (VoicePacket dst)}
    (hcall : c.decrypt dst now buf = .ok (c', packet)) :
    c' = c.accept now (buf.headD 0) nonce late lost := by
  obtain ⟨packet', -, hsame⟩ := h.decrypt dst now
  rw [hsame] at hcall
  cases hcall
  rfl

-- The tag of the datagram verifies under the key of the state and the nonce that the
-- state reconstructs for it.
def Verifies (c : CryptState) (buf : List UInt8) : Prop :=
  ∃ nonce late lost plain, c.Accepts buf nonce late lost plain

section Refused

variable {dst : VoicePacketDst} {now : Instant} {c' : CryptState}
  {packet : Except DecryptError (VoicePacket dst)}

theorem verifies_of_changed (h : c.decrypt dst now buf = .ok (c', packet)) (hchanged : c' ≠ c) :
    c.Verifies buf := by
  obtain ⟨e, hrefused, -⟩ | ⟨nonce, late, lost, plain, packet', ha, -, -⟩ :=
    decrypt_cases dst c now buf
  · rw [hrefused] at h
    cases h
    exact absurd rfl hchanged
  · exact ⟨nonce, late, lost, plain, ha⟩

theorem unchanged_of_refused (h : c.decrypt dst now buf = .ok (c', packet))
    (hno : ∀ nonce late lost plain, ¬c.Accepts buf nonce late lost plain) : c' = c := by
  by_contra hchanged
  obtain ⟨nonce, late, lost, plain, ha⟩ := verifies_of_changed h hchanged
  exact hno nonce late lost plain ha

-- The errors that come before the decoder.
theorem not_verifies (h : c.decrypt dst now buf = .ok (c', packet))
    (hearly : buf.length < 4 ∨
      packet = .error .Repeat ∨ packet = .error .Late ∨ packet = .error .Mac) :
    ¬c.Verifies buf := by
  rintro ⟨nonce, late, lost, plain, ha⟩
  obtain ⟨packet', hdecode, hcall⟩ := ha.decrypt dst now
  have hsame : packet' = packet := by
    rw [hcall] at h
    cases h
    rfl
  subst hsame
  rcases hearly with hshort | rfl | rfl | rfl
  · exact absurd ha.long (by omega)
  · exact decodeVoicePacket_error hdecode
  · exact decodeVoicePacket_error hdecode
  · exact decodeVoicePacket_error hdecode

end Refused

theorem decrypt_returns (dst : VoicePacketDst) (c : CryptState) (now : Instant)
    (buf : List UInt8) : (c.decrypt dst now buf).Returns := by
  obtain ⟨e, h, -⟩ | ⟨nonce, late, lost, plain, packet, -, -, h⟩ := decrypt_cases dst c now buf
  · exact ⟨_, h⟩
  · exact ⟨_, h⟩

theorem decrypt_encryptNonce {dst : VoicePacketDst} {now : Instant} {c' : CryptState}
    {packet : Except DecryptError (VoicePacket dst)}
    (h : c.decrypt dst now buf = .ok (c', packet)) : c'.encryptNonce = c.encryptNonce := by
  obtain ⟨e, he, -⟩ | ⟨nonce, late, lost, plain, packet', -, -, ha⟩ := decrypt_cases dst c now buf
  · rw [he] at h
    cases h
    rfl
  · rw [ha] at h
    cases h
    rfl

-- What `encrypt` writes, once the packet is sealed under the next nonce: the low
-- nonce byte, three bytes of the tag, the ciphertext.
theorem encrypt_eq {dir : VoicePacketDst} {packet : VoicePacket dir} {sealed : List UInt8}
    {tag : Block} (dst : List UInt8)
    (henc : ocbEncrypt c.aes (c.encryptNonce + 1) (encodeVoicePacket packet []) =
      .ok (sealed, tag)) :
    c.encrypt packet dst = .ok ({ c with encryptNonce := c.encryptNonce + 1 },
      (c.encryptNonce + 1).asU8 :: (tag.toBeBytes.take 3 ++ sealed)) := by
  have hlen : (resize dst 4 0).length = 4 := by
    simp only [resize, List.length_append, List.length_take, List.length_replicate]
    omega
  -- the four header bytes, whatever the buffer held
  obtain ⟨b0, b1, b2, b3, hhead⟩ : ∃ b0 b1 b2 b3, resize dst 4 0 = [b0, b1, b2, b3] := by
    match hr : resize dst 4 0, hlen with
    | [b0, b1, b2, b3], _ => exact ⟨b0, b1, b2, b3, rfl⟩
  simp only [encrypt, hhead]
  rw [splitAt_eq (by simp), Exec.ok_bind]
  simp only [List.take_succ_cons, List.take_zero, List.drop_succ_cons, List.drop_zero, henc,
    Exec.ok_bind]
  rw [copyFromSlice_eq (by omega) (by simp) (by simp), Exec.ok_bind,
    copyFromSlice_eq (by omega) (by simp) (by simp)]
  simp

theorem encrypt_returns {dir : VoicePacketDst} (c : CryptState) (packet : VoicePacket dir) :
    ∃ datagram, c.encrypt packet [] =
      .ok ({ c with encryptNonce := c.encryptNonce + 1 }, datagram) := by
  obtain ⟨sealed, tag, hseal, -⟩ :=
    ocbEncrypt_returns c.aes (c.encryptNonce + 1) (encodeVoicePacket packet [])
  exact ⟨_, encrypt_eq [] hseal⟩

-- The first byte and the length of a datagram.
theorem encrypt_shape {dir : VoicePacketDst} {packet : VoicePacket dir} {dst out : List UInt8}
    {c' : CryptState} (h : c.encrypt packet dst = .ok (c', out)) :
    ∃ rest, out = c'.encryptNonce.asU8 :: rest ∧
      out.length = 4 + (encodeVoicePacket packet []).length := by
  obtain ⟨sealed, tag, hseal, hlen⟩ :=
    ocbEncrypt_returns c.aes (c.encryptNonce + 1) (encodeVoicePacket packet [])
  rw [encrypt_eq dst hseal] at h
  cases h
  refine ⟨_, rfl, ?_⟩
  simp only [List.length_cons, List.length_append, List.length_take, Block.length_toBeBytes, hlen]
  omega

-- A datagram that a sender produced, as its receiver reads it.
theorem encrypt_sealed {dir : VoicePacketDst} {packet : VoicePacket dir} {dst out : List UInt8}
    {c' : CryptState} (hinv : c.aes.Inverse) (h : c.encrypt packet dst = .ok (c', out)) :
    ∃ (sealed : List UInt8) (tag : Block),
      out = (c.encryptNonce + 1).asU8 :: (tag.toBeBytes.take 3 ++ sealed) ∧
      c' = { c with encryptNonce := c.encryptNonce + 1 } ∧
      ocbDecrypt c.aes (c.encryptNonce + 1) sealed = .ok (encodeVoicePacket packet [], tag) := by
  obtain ⟨sealed, tag, henc, hdec⟩ :=
    ocbDecrypt_ocbEncrypt hinv (c.encryptNonce + 1) (encodeVoicePacket packet [])
  rw [encrypt_eq dst henc] at h
  cases h
  exact ⟨sealed, tag, rfl, rfl, hdec⟩

-- Such a datagram passes the tag check exactly when the receiver tries it under
-- the nonce it was sealed with.
theorem accepts_sealed {nonce : Block} {late : Bool} {lost : Int32} {sealed plain : List UInt8}
    {tag : Block} (b : UInt8) (hdec : ocbDecrypt c.aes nonce sealed = .ok (plain, tag))
    (hrec : c.reconstructNonce b = .ok (nonce, late, lost)) :
    c.Accepts (b :: (tag.toBeBytes.take 3 ++ sealed)) nonce late lost plain := by
  have hlen : (tag.toBeBytes.take 3).length = 3 := by simp
  refine ⟨by simp only [List.length_cons, List.length_append, hlen]; omega, hrec, tag, ?_, ?_⟩
  · rw [List.drop_succ_cons, List.drop_left' hlen]
    exact hdec
  · rw [List.take_succ_cons, List.drop_succ_cons, List.drop_zero, List.take_left' hlen,
      List.take_of_length_le (by omega)]

theorem encrypt_next {dir : VoicePacketDst} {packet : VoicePacket dir} {dst out : List UInt8}
    {c' : CryptState} (h : c.encrypt packet dst = .ok (c', out)) :
    c' = { c with encryptNonce := c.encryptNonce + 1 } := by
  simp only [encrypt, Exec.bind_eq_ok, Exec.pure_eq_ok, Except.ok.injEq, Prod.mk.injEq] at h
  obtain ⟨-, -, -, -, -, -, -, -, rfl, -⟩ := h
  rfl

theorem encrypt_encryptNonce {dir : VoicePacketDst} {packet : VoicePacket dir}
    {dst out : List UInt8} {c' : CryptState} (h : c.encrypt packet dst = .ok (c', out)) :
    c'.encryptNonce = c.encryptNonce + 1 := by
  rw [encrypt_next h]

end CryptState

end Mumble
