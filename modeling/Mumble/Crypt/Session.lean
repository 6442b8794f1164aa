import Mumble.Crypt.Replay

namespace Mumble

open Mumble.Lib
open DecryptRun (sampleReceiver)

variable {dir : VoicePacketDst} {α : Type}

-- Packets encrypted in order, each into an empty buffer.
def encryptAll (s : CryptState) :
    List (VoicePacket dir) → Exec (CryptState × List (List UInt8))
  | [] => .ok (s, [])
  | packet :: packets => do
      let (s, datagram) ← s.encrypt packet []
      let (s, datagrams) ← encryptAll s packets
      return (s, datagram :: datagrams)

-- Datagrams decrypted in order, with the nonce that each call leaves behind.
def decryptAll (dir : VoicePacketDst) (r : CryptState) : List (Instant × List UInt8) →
    Exec (CryptState × List (Block × Except DecryptError (VoicePacket dir)))
  | [] => .ok (r, [])
  | (now, datagram) :: rest => do
      let (r, packet) ← r.decrypt dir now datagram
      let (r', results) ← decryptAll dir r rest
      return (r', (r.decryptNonce, packet) :: results)

-- What becomes of each datagram: lost, or delivered at some time.
abbrev Delivery := List (Option Instant)

def delivered : Delivery → List α → List (Instant × α)
  | some now :: delivery, x :: xs => (now, x) :: delivered delivery xs
  | none :: delivery, _ :: xs => delivered delivery xs
  | _, _ => []

-- No delivered datagram comes right after more than `limit` lost ones, where
-- `gap` were lost before the first.
def GapsAtMost (limit : Nat) : Nat → Delivery → Prop
  | _, [] => True
  | gap, some _ :: delivery => gap ≤ limit ∧ GapsAtMost limit 0 delivery
  | gap, none :: delivery => GapsAtMost limit (gap + 1) delivery

-- The packets with the nonces that a sender at `nonce` uses for them.
def sentUnder (nonce : Block) : List (VoicePacket dir) → List (Block × VoicePacket dir)
  | [] => []
  | packet :: packets => (nonce + 1, packet) :: sentUnder (nonce + 1) packets

variable {s s' r : CryptState} {packet : VoicePacket dir} {datagram : List UInt8}

-- One datagram, up to 126 behind which are missing.
theorem decrypt_encrypt {top gap : Nat} (now : Instant) (hkey : r.aes = s.aes)
    (hinverse : s.aes.Inverse) (hr : r.decryptNonce = nonceAt top)
    (hs : s.encryptNonce = nonceAt (top + gap)) (hgap : gap ≤ 126) (hwf : packet.WellFormed)
    (hsent : s.encrypt packet [] = .ok (s', datagram)) :
    ∃ r', r.decrypt dir now datagram = .ok (r', .ok packet) ∧
      r'.decryptNonce = s'.encryptNonce ∧ r'.aes = r.aes := by
  obtain ⟨sealed, tag, rfl, rfl, hdec⟩ := CryptState.encrypt_sealed hinverse hsent
  have hnext : s.encryptNonce + 1 = nonceAt (top + gap + 1) := by rw [hs, nonceAt_succ]
  have hrec := CryptState.reconstructNonce_ahead hr
    (n := top + gap + 1) (by omega) (by omega)
  rw [hnext, ← hkey] at hdec
  have haccepts := CryptState.accepts_sealed _ hdec hrec
  rw [← nonceAt_asU8, ← hnext] at haccepts
  obtain ⟨packet', hpacket, hcall⟩ := haccepts.decrypt dir now
  rw [decodeVoicePacket_encodeVoicePacket packet hwf] at hpacket
  cases hpacket
  exact ⟨_, hcall, rfl, rfl⟩

-- The induction is on the packets; the receiver stands `gap` nonces behind the
-- sender, which is how many datagrams were lost since the last delivered one.
theorem decryptAll_encryptAll {packets : List (VoicePacket dir)} (s r : CryptState)
    (delivery : Delivery) (top gap : Nat) (hkey : r.aes = s.aes) (hinverse : s.aes.Inverse)
    (hr : r.decryptNonce = nonceAt top) (hs : s.encryptNonce = nonceAt (top + gap))
    (hwf : ∀ packet ∈ packets, packet.WellFormed) (hgaps : GapsAtMost 126 gap delivery) :
    ∃ s' datagrams r', encryptAll s packets = .ok (s', datagrams) ∧
      decryptAll dir r (delivered delivery datagrams) = .ok (r',
        (delivered delivery (sentUnder s.encryptNonce packets)).map
          fun sent => (sent.2.1, .ok sent.2.2)) := by
  induction packets generalizing s r delivery top gap with
  | nil =>
      refine ⟨s, [], r, rfl, ?_⟩
      rcases delivery with _ | ⟨_ | now, delivery⟩ <;> rfl
  | cons packet packets ih =>
      obtain ⟨datagram, hsent⟩ := s.encrypt_returns packet
      have hnext : s.encryptNonce + 1 = nonceAt (top + gap + 1) := by rw [hs, nonceAt_succ]
      have hrest : ∀ p ∈ packets, p.WellFormed := fun p hp => hwf p (List.mem_cons_of_mem _ hp)
      -- the sender after this packet
      obtain ⟨next, hnextState⟩ : ∃ next, next = { s with encryptNonce := s.encryptNonce + 1 } :=
        ⟨_, rfl⟩
      rw [← hnextState] at hsent
      have haes : next.aes = s.aes := by rw [hnextState]
      have hnonce : next.encryptNonce = nonceAt (top + (gap + 1)) := by rw [hnextState]; exact hnext
      have hunder : sentUnder s.encryptNonce (packet :: packets) =
          (next.encryptNonce, packet) :: sentUnder next.encryptNonce packets := by rw [hnextState]; rfl
      rw [hunder]
      rcases delivery with _ | ⟨_ | now, delivery⟩
      · obtain ⟨s', datagrams, r', henc, -⟩ := ih next r [] top (gap + 1) (hkey.trans haes.symm)
          (haes ▸ hinverse) hr hnonce hrest trivial
        exact ⟨s', datagram :: datagrams, r, by simp only [encryptAll, hsent, Exec.ok_bind, henc,
          Exec.pure_eq_ok], rfl⟩
      · obtain ⟨s', datagrams, r', henc, hdec⟩ := ih next r delivery top (gap + 1)
          (hkey.trans haes.symm) (haes ▸ hinverse) hr hnonce hrest hgaps
        exact ⟨s', datagram :: datagrams, r', by simp only [encryptAll, hsent, Exec.ok_bind, henc,
          Exec.pure_eq_ok], hdec⟩
      · obtain ⟨hgap, hgaps⟩ := hgaps
        obtain ⟨r₁, hcall, hreached, haes₁⟩ :=
          decrypt_encrypt now hkey hinverse hr hs hgap (hwf packet (by simp)) hsent
        obtain ⟨s', datagrams, r', henc, hdec⟩ := ih next r₁ delivery (top + (gap + 1)) 0
          ((haes₁.trans hkey).trans haes.symm) (haes ▸ hinverse) (hreached.trans hnonce) hnonce
          hrest hgaps
        refine ⟨s', datagram :: datagrams, r', by simp only [encryptAll, hsent, Exec.ok_bind, henc,
          Exec.pure_eq_ok], ?_⟩
        simp only [delivered, decryptAll, hcall, Exec.ok_bind, hdec, Exec.pure_eq_ok,
          List.map_cons, hreached]

theorem eq_nonceAt_toNat (x : Block) : x = nonceAt x.toNat := by
  simp [nonceAt]

-- A sender and a receiver with one key and one nonce: whatever is lost, as long
-- as no more than 126 datagrams in a row are, each delivered datagram gives back
-- its packet and leaves the receiver at the nonce it was sent under.
theorem session_correct {packets : List (VoicePacket dir)} {delivery : Delivery}
    (hkey : r.aes = s.aes) (hinverse : s.aes.Inverse) (hsync : r.decryptNonce = s.encryptNonce)
    (hwf : ∀ packet ∈ packets, packet.WellFormed) (hgaps : GapsAtMost 126 0 delivery) :
    ∃ s' datagrams r', encryptAll s packets = .ok (s', datagrams) ∧
      decryptAll dir r (delivered delivery datagrams) = .ok (r',
        (delivered delivery (sentUnder s.encryptNonce packets)).map
          fun sent => (sent.2.1, .ok sent.2.2)) :=
  decryptAll_encryptAll s r delivery s.encryptNonce.toNat 0 hkey hinverse
    (hsync.trans (eq_nonceAt_toNat _)) (eq_nonceAt_toNat _) hwf hgaps

def sampleAudio : VoicePacket .ServerBound := .Audio 0 () 3 (.Opus [1, 2, 3] true) none

-- Three packets across the end of the nonce range, the second one lost.
theorem session_correct_sample :
    ∃ s' datagrams r',
      encryptAll { sampleSender with encryptNonce := -1 }
        [.Ping 7, .Ping 8, sampleAudio] = .ok (s', datagrams) ∧
      decryptAll .ServerBound { sampleReceiver with decryptNonce := -1 }
        (delivered [some 1, none, some 2] datagrams) = .ok (r', [(0, .ok (.Ping 7)),
          (2, .ok sampleAudio)]) :=
  session_correct rfl (Aes128.new_inverse sampleKey) rfl (by decide)
    ⟨by decide, by decide, trivial⟩

end Mumble
