import Mumble.Crypt.Nonce
import Mumble.Lib.Window

namespace Mumble

open Mumble.Lib

-- Positions: the nonces unwrapped to natural numbers. The table of `decrypt` has
-- a slot for each low byte and remembers the next byte.

def nonceAt (n : Nat) : Block := BitVec.ofNat 128 n

def SLOTS : Nat := 256
def LATE_WINDOW : Nat := 30

def pageOf (n : Nat) : UInt8 := UInt8.ofNat (n / 256)

theorem asU8_toNat (x : Block) : x.asU8.toNat = x.toNat % 256 := by
  simp [Block.asU8]

theorem nonceAt_asU8 (n : Nat) : (nonceAt n).asU8 = UInt8.ofNat n := by
  apply UInt8.toNat_inj.mp
  rw [asU8_toNat, UInt8.toNat_ofNat', nonceAt, BitVec.toNat_ofNat]
  omega

theorem nonceAt_page (n : Nat) : Block.asU8 (nonceAt n >>> 8) = pageOf n := by
  apply UInt8.toNat_inj.mp
  rw [asU8_toNat, pageOf, UInt8.toNat_ofNat', BitVec.toNat_ushiftRight, nonceAt,
    BitVec.toNat_ofNat, Nat.shiftRight_eq_div_pow]
  omega

theorem nonceAt_add (n k : Nat) : nonceAt n + BitVec.ofNat 128 k = nonceAt (n + k) := by
  apply BitVec.eq_of_toNat_eq
  simp only [nonceAt, BitVec.toNat_add, BitVec.toNat_ofNat]
  omega

theorem nonceAt_succ (n : Nat) : nonceAt n + 1 = nonceAt (n + 1) := nonceAt_add n 1

-- `diff as u128` for an `i8` that is given by its byte.
theorem toNat_signExtend (b : UInt8) :
    (b.toInt8.toBitVec.signExtend 128).toNat =
      if b.toNat < 128 then b.toNat else 2 ^ 128 - 256 + b.toNat := by
  revert b
  decide +kernel

theorem diff_pos_iff (b : UInt8) : b.toInt8 > 0 ↔ 0 < b.toNat ∧ b.toNat < 128 := by
  revert b
  decide +kernel

-- The gap before a packet that is ahead, as `decrypt` counts it.
theorem diff_lost (b : UInt8) (h : 0 < b.toNat ∧ b.toNat < 128) :
    (b.toInt8 - 1).toInt32 = Int32.ofNat (b.toNat - 1) := by
  revert b
  decide +kernel

theorem diff_near_iff (b : UInt8) : b.toInt8 > -30 ↔ b.toNat < 128 ∨ 226 < b.toNat := by
  revert b
  decide +kernel

-- The byte of position n, relative to the byte of the top.
theorem byte_sub_toNat (n top : Nat) :
    (UInt8.ofNat n - UInt8.ofNat top).toNat = (n + (256 - top % 256)) % 256 := by
  rw [UInt8.toNat_sub, UInt8.toNat_ofNat', UInt8.toNat_ofNat']
  omega

namespace CryptState

variable {c : CryptState} {top n : Nat}

theorem add_signExtend_ahead (h : top < n) (hn : n < top + 128) :
    nonceAt top + ((UInt8.ofNat n - UInt8.ofNat top).toInt8.toBitVec.signExtend 128) =
      nonceAt n := by
  apply BitVec.eq_of_toNat_eq
  rw [BitVec.toNat_add, toNat_signExtend, byte_sub_toNat, if_pos (by omega)]
  simp only [nonceAt, BitVec.toNat_ofNat]
  omega

theorem add_signExtend_behind (h : n ≤ top) (hn : top < n + 128) :
    nonceAt top + ((UInt8.ofNat n - UInt8.ofNat top).toInt8.toBitVec.signExtend 128) =
      nonceAt n := by
  apply BitVec.eq_of_toNat_eq
  rw [BitVec.toNat_add, toNat_signExtend, byte_sub_toNat]
  simp only [nonceAt, BitVec.toNat_ofNat]
  split_ifs <;> omega

-- A position up to 127 above the top is reached, in order or past a gap. The positions in
-- the gap are counted as lost.
theorem reconstructNonce_ahead (htop : c.decryptNonce = nonceAt top) (h : top < n)
    (hn : n < top + 128) :
    c.reconstructNonce (UInt8.ofNat n) = .ok (nonceAt n, false, Int32.ofNat (n - top - 1)) := by
  unfold reconstructNonce
  rw [htop, nonceAt_succ, nonceAt_asU8, nonceAt_asU8]
  by_cases hnext : UInt8.ofNat (top + 1) = UInt8.ofNat n
  · have heq : n = top + 1 := by
      have := congrArg UInt8.toNat hnext
      simp only [UInt8.toNat_ofNat'] at this
      omega
    rw [if_pos hnext, heq, Nat.add_sub_cancel_left]
    rfl
  · have hbyte : (UInt8.ofNat n - UInt8.ofNat top).toNat = n - top := by
      rw [byte_sub_toNat]
      omega
    have hrange : 0 < n - top ∧ n - top < 128 := by omega
    have hpos : (UInt8.ofNat n - UInt8.ofNat top).toInt8 > 0 := by
      rw [diff_pos_iff, hbyte]
      exact hrange
    rw [if_neg hnext]
    simp only [if_pos hpos, add_signExtend_ahead h hn]
    rw [diff_lost _ (hbyte.symm ▸ hrange), hbyte]

-- One less than 30 below is late, or refused if its slot remembers its page.
theorem reconstructNonce_late (htop : c.decryptNonce = nonceAt top) (h : n ≤ top)
    (hn : top < n + LATE_WINDOW) :
    c.reconstructNonce (UInt8.ofNat n) =
      if c.decryptHistory (UInt8.ofNat n) = pageOf n then .error .Repeat
      else .ok (nonceAt n, true, -1) := by
  unfold LATE_WINDOW at hn
  have hnext : UInt8.ofNat (top + 1) ≠ UInt8.ofNat n := by
    intro heq
    have := congrArg UInt8.toNat heq
    simp only [UInt8.toNat_ofNat'] at this
    omega
  have hneg : ¬(UInt8.ofNat n - UInt8.ofNat top).toInt8 > 0 := by
    rw [diff_pos_iff, byte_sub_toNat]
    omega
  have hnear : (UInt8.ofNat n - UInt8.ofNat top).toInt8 > -30 := by
    rw [diff_near_iff, byte_sub_toNat]
    omega
  unfold reconstructNonce
  rw [htop, nonceAt_succ, nonceAt_asU8, nonceAt_asU8, if_neg hnext]
  simp only [if_neg hneg, if_pos hnear, add_signExtend_behind h (by omega), nonceAt_page]

-- Every nonce that `decrypt` tries is one of these two kinds.
theorem reconstructNonce_cases {b : UInt8} {nonce : Block} {late : Bool} {lost : Int32}
    (htop : c.decryptNonce = nonceAt top) (hbig : LATE_WINDOW ≤ top)
    (h : c.reconstructNonce b = .ok (nonce, late, lost)) :
    ∃ n, b = UInt8.ofNat n ∧ nonce = nonceAt n ∧
      ((late = false ∧ top < n ∧ n < top + 128 ∧ lost = Int32.ofNat (n - top - 1)) ∨
        (late = true ∧ n ≤ top ∧ top < n + LATE_WINDOW ∧ c.decryptHistory b ≠ pageOf n ∧
          lost = -1)) := by
  have hbyte := b.toNat_lt
  -- how far b lies above the low byte of the top, as a byte
  obtain ⟨k, hk⟩ : ∃ k, k = (b - UInt8.ofNat top).toNat := ⟨_, rfl⟩
  have hsub : k = (b.toNat + (256 - top % 256)) % 256 := by
    rw [hk, UInt8.toNat_sub, UInt8.toNat_ofNat']
    omega
  have hof : ∀ m, m % 256 = b.toNat → b = UInt8.ofNat m := by
    intro m hm
    apply UInt8.toNat_inj.mp
    rw [UInt8.toNat_ofNat']
    omega
  unfold LATE_WINDOW at hbig ⊢
  by_cases hahead : 0 < k ∧ k < 128
  · have hb := hof (top + k) (by omega)
    have hrec := reconstructNonce_ahead htop (n := top + k) (by omega) (by omega)
    rw [← hb, h] at hrec
    cases hrec
    exact ⟨top + k, hb, rfl, .inl ⟨rfl, by omega, by omega, rfl⟩⟩
  · by_cases hlate : k = 0 ∨ 226 < k
    · obtain ⟨n, hn⟩ : ∃ n, n = top - (256 - k) % 256 := ⟨_, rfl⟩
      have hb := hof n (by omega)
      have hrec := reconstructNonce_late htop (n := n) (by omega)
        (by unfold LATE_WINDOW; omega)
      rw [← hb, h] at hrec
      split_ifs at hrec with hpage
      cases hrec
      exact ⟨n, hb, rfl, .inr ⟨rfl, by omega, by omega, hpage, rfl⟩⟩
    · -- the bytes in between are refused as late
      have hnext : (c.decryptNonce + 1).asU8 ≠ b := by
        intro heq
        have := congrArg UInt8.toNat heq
        rw [htop, nonceAt_succ, nonceAt_asU8, UInt8.toNat_ofNat'] at this
        omega
      have hneg : ¬(b - c.decryptNonce.asU8).toInt8 > 0 := by
        rw [htop, nonceAt_asU8, diff_pos_iff, ← hk]
        exact hahead
      have hfar : ¬(b - c.decryptNonce.asU8).toInt8 > -30 := by
        rw [htop, nonceAt_asU8, diff_near_iff, ← hk]
        omega
      simp only [reconstructNonce, if_neg hnext, if_neg hneg, if_neg hfar] at h
      cases h

-- The state right after `Default` or `reset`.
def Fresh (c : CryptState) : Prop :=
  (∃ key aes now, c = default key aes now) ∨ ∃ c₀ now, c = reset c₀ now

theorem Fresh.decryptNonce (h : c.Fresh) : c.decryptNonce = nonceAt (2 ^ 127) := by
  rcases h with ⟨key, aes, now, rfl⟩ | ⟨c₀, now, rfl⟩
  · rfl
  · rfl

theorem Fresh.decryptHistory (h : c.Fresh) : c.decryptHistory = fun _ => 0 := by
  rcases h with ⟨key, aes, now, rfl⟩ | ⟨c₀, now, rfl⟩
  · rfl
  · rfl

-- The table of the state, with the top it belongs to.
def window (c : CryptState) (top : Nat) : Window UInt8 where
  top := top
  slot r := if r < SLOTS then c.decryptHistory (UInt8.ofNat r) else 0

theorem window_slot (c : CryptState) (top n : Nat) :
    (c.window top).slot (n % SLOTS) = c.decryptHistory (UInt8.ofNat n) := by
  have hlt : n % SLOTS < SLOTS := Nat.mod_lt _ (by decide)
  have hof : UInt8.ofNat (n % SLOTS) = UInt8.ofNat n := by
    apply UInt8.toNat_inj.mp
    simp only [UInt8.toNat_ofNat', SLOTS]
    omega
  simp only [window, if_pos hlt, hof]

theorem window_accept (c : CryptState) (now : Instant) (late : Bool) (lost : Int32)
    (top top' n : Nat) :
    (c.accept now (UInt8.ofNat n) (nonceAt n) late lost).window top' =
      ⟨top', (c.window top).record SLOTS pageOf n⟩ := by
  refine congrArg (Window.mk top') (funext fun r => ?_)
  simp only [accept, nonceAt_page, window, Window.record, Function.update_apply]
  by_cases hr : r < SLOTS
  · have hiff : UInt8.ofNat r = UInt8.ofNat n ↔ r = n % SLOTS := by
      rw [← UInt8.toNat_inj, UInt8.toNat_ofNat', UInt8.toNat_ofNat']
      unfold SLOTS at *
      omega
    simp only [if_pos hr, hiff]
  · have hne : r ≠ n % SLOTS := by
      have := Nat.mod_lt n (show 0 < SLOTS by decide)
      omega
    simp only [if_neg hr, if_neg hne]

-- A datagram that gets past the tag check takes a step of the window: ahead of the top, with
-- the gap before it counted as lost, or behind it, with one less lost.
theorem Accepts.step {buf plain : List UInt8} {nonce : Block} {late : Bool} {lost : Int32}
    (ha : c.Accepts buf nonce late lost plain) (now : Instant)
    (htop : c.decryptNonce = nonceAt top) (hbig : LATE_WINDOW ≤ top) :
    ∃ n, buf.headD 0 = UInt8.ofNat n ∧ nonce = nonceAt n ∧
      ((late = false ∧ lost = Int32.ofNat (n - top - 1) ∧ top < n ∧ n < top + 128 ∧
        Window.Step SLOTS LATE_WINDOW pageOf (c.window top) n
          ((c.accept now (buf.headD 0) nonce late lost).window n)) ∨
      (late = true ∧ lost = -1 ∧ n ≤ top ∧ top < n + LATE_WINDOW ∧
        Window.Step SLOTS LATE_WINDOW pageOf (c.window top) n
          ((c.accept now (buf.headD 0) nonce late lost).window top))) := by
  obtain ⟨n, hbyte, rfl, hkind⟩ := reconstructNonce_cases htop hbig ha.reconstructs
  refine ⟨n, hbyte, rfl, hkind.imp ?_ ?_⟩
  · rintro ⟨rfl, hlt, hnear, rfl⟩
    refine ⟨rfl, rfl, hlt, hnear, ?_⟩
    rw [hbyte, window_accept c now false _ top]
    exact .ahead hlt
  · rintro ⟨rfl, hle, hnear, hpage, rfl⟩
    refine ⟨rfl, rfl, hle, hnear, ?_⟩
    rw [hbyte, window_accept c now true _ top]
    refine .late hle hnear ?_
    rw [window_slot, ← hbyte]
    exact hpage

end CryptState

structure DecryptCall where
  dst : VoicePacketDst
  now : Instant
  datagram : List UInt8

-- A datagram that got past the tag check, the nonce it was tried under, and
-- that nonce counted on from the start without wrapping.
structure Accepted where
  position : Nat
  nonce : Block
  datagram : List UInt8

def positionOf (top : Nat) (current nonce : Block) (late : Bool) : Nat :=
  if late then top - (current - nonce).toNat else top + (nonce - current).toNat

-- Calls of `decrypt` on one state, both lists with the latest first. The number
-- is where `decrypt_nonce` stands, counted without wrapping.
inductive DecryptRun (c : CryptState) :
    List DecryptCall → List Accepted → Nat → CryptState → Prop where
  | nil : DecryptRun c [] [] c.decryptNonce.toNat c
  | refused {calls : List DecryptCall} {accepted : List Accepted} {top : Nat}
      {c' c'' : CryptState} {call : DecryptCall}
      {packet : Except DecryptError (VoicePacket call.dst)}
      (hrun : DecryptRun c calls accepted top c')
      (hcall : c'.decrypt call.dst call.now call.datagram = .ok (c'', packet))
      (hrefused : ∀ nonce late lost plain, ¬c'.Accepts call.datagram nonce late lost plain) :
      DecryptRun c (call :: calls) accepted top c''
  | accepted {calls : List DecryptCall} {accepted : List Accepted} {top : Nat}
      {c' c'' : CryptState} {call : DecryptCall}
      {packet : Except DecryptError (VoicePacket call.dst)}
      {nonce : Block} {late : Bool} {lost : Int32} {plain : List UInt8}
      (hrun : DecryptRun c calls accepted top c')
      (hcall : c'.decrypt call.dst call.now call.datagram = .ok (c'', packet))
      (haccepts : c'.Accepts call.datagram nonce late lost plain) :
      DecryptRun c (call :: calls)
        (⟨positionOf top c'.decryptNonce nonce late, nonce, call.datagram⟩ :: accepted)
        (if late then top else positionOf top c'.decryptNonce nonce late) c''

namespace DecryptRun

variable {c c' c'' : CryptState} {calls : List DecryptCall} {accepted : List Accepted} {top : Nat}

-- Every sequence of calls is such a run.
theorem exists_run (c : CryptState) (calls : List DecryptCall) :
    ∃ accepted top c', DecryptRun c calls accepted top c' := by
  induction calls with
  | nil => exact ⟨[], _, c, .nil⟩
  | cons call calls ih =>
      obtain ⟨accepted, top, c', hrun⟩ := ih
      obtain ⟨e, hcall, hno⟩ | ⟨nonce, late, lost, plain, packet, ha, -, hcall⟩ :=
        CryptState.decrypt_cases call.dst c' call.now call.datagram
      · exact ⟨_, _, _, hrun.refused hcall hno⟩
      · exact ⟨_, _, _, hrun.accepted hcall ha⟩

theorem positionOf_ahead {n : Nat} (h : top < n) (hn : n < top + 128) :
    positionOf top (nonceAt top) (nonceAt n) false = n := by
  simp only [positionOf, Bool.false_eq_true, if_false, nonceAt, BitVec.toNat_sub,
    BitVec.toNat_ofNat]
  omega

theorem positionOf_late {n : Nat} (h : n ≤ top) (hn : top < n + LATE_WINDOW) :
    positionOf top (nonceAt top) (nonceAt n) true = n := by
  unfold LATE_WINDOW at hn
  simp only [positionOf, if_true, nonceAt, BitVec.toNat_sub, BitVec.toNat_ofNat]
  omega

-- The run as the code has it follows the window of the library.
structure Lift (c : CryptState) (accepted : List Accepted) (top : Nat) (c' : CryptState) :
    Prop where
  nonce : c'.decryptNonce = nonceAt top
  aes : c'.aes = c.aes
  start_le : 2 ^ 127 ≤ top
  run : Window.Run SLOTS LATE_WINDOW pageOf (c.window (2 ^ 127))
    (accepted.map Accepted.position) (c'.window top)
  entries : ∀ a ∈ accepted, a.nonce = nonceAt a.position

theorem Lift.big (h : Lift c accepted top c') : LATE_WINDOW ≤ top := by
  have hstart := h.start_le
  unfold LATE_WINDOW
  omega

theorem lift (hfresh : c.Fresh) (hrun : DecryptRun c calls accepted top c') :
    Lift c accepted top c' := by
  induction hrun with
  | nil =>
      have htop : c.decryptNonce.toNat = 2 ^ 127 := by
        rw [hfresh.decryptNonce]
        rfl
      rw [htop]
      exact ⟨hfresh.decryptNonce, rfl, le_rfl, .nil _, by simp⟩
  | @refused calls accepted top c' c'' call packet hrun hcall hno ih =>
      rw [CryptState.unchanged_of_refused hcall hno]
      exact ih
  | @accepted calls accepted top c' c'' call packet nonce late lost plain hrun hcall ha ih =>
      obtain ⟨n, -, rfl, ⟨rfl, -, hlt, hnear, hstep⟩ | ⟨rfl, -, hle, hnear, hstep⟩⟩ :=
        ha.step call.now ih.nonce ih.big
      · rw [ha.next hcall, ih.nonce, positionOf_ahead hlt hnear]
        exact ⟨rfl, ih.aes, ih.start_le.trans hlt.le, ih.run.cons hstep, by simpa using ih.entries⟩
      · rw [ha.next hcall, ih.nonce, positionOf_late hle hnear]
        exact ⟨ih.nonce, ih.aes, ih.start_le, ih.run.cons hstep, by simpa using ih.entries⟩

theorem nonceAt_inj {m n : Nat} (hm : m < 2 ^ 128) (hn : n < 2 ^ 128)
    (h : nonceAt m = nonceAt n) : m = n := by
  have := congrArg BitVec.toNat h
  simp only [nonceAt, BitVec.toNat_ofNat] at this
  omega

-- While `decrypt_nonce` advances by less than 2 ^ 127, no nonce is accepted
-- twice; so a datagram accepted again is accepted under another nonce.
theorem nonces_nodup (hfresh : c.Fresh) (hrun : DecryptRun c calls accepted top c')
    (hadvance : top - 2 ^ 127 < 2 ^ 127) :
    (accepted.map Accepted.nonce).Nodup ∧
      accepted.Pairwise fun a b => a.datagram = b.datagram → a.nonce ≠ b.nonce := by
  have hlift := hrun.lift hfresh
  have hinv := hlift.run.inv (by decide)
  have hbound : ∀ a ∈ accepted, a.position < 2 ^ 128 := by
    intro a ha
    have hle : a.position ≤ top := hinv.le_top _ (List.mem_map_of_mem ha)
    omega
  have hpositions : (accepted.map Accepted.position).Nodup := hlift.run.nodup (by decide)
  have hdistinct : accepted.Pairwise fun a b => a.nonce ≠ b.nonce := by
    refine (List.pairwise_map.mp hpositions).imp_of_mem ?_
    intro a b ha hb hne hnonce
    rw [hlift.entries a ha, hlift.entries b hb] at hnonce
    exact hne (nonceAt_inj (hbound a ha) (hbound b hb) hnonce)
  refine ⟨List.pairwise_map.mpr hdistinct, hdistinct.imp ?_⟩
  intro a b hne _
  exact hne

-- A run grows by a datagram that passes the computed check.
theorem accept_datagram (hrun : DecryptRun c calls accepted top c') (call : DecryptCall)
    (nonce : Block) (late : Bool) (lost : Int32)
    (htry : c'.tryDatagram call.datagram = some (nonce, late, lost)) :
    DecryptRun c (call :: calls)
      (⟨positionOf top c'.decryptNonce nonce late, nonce, call.datagram⟩ :: accepted)
      (if late then top else positionOf top c'.decryptNonce nonce late)
      (c'.accept call.now (call.datagram.headD 0) nonce late lost) := by
  obtain ⟨plain, ha⟩ := CryptState.Accepts.of_tryDatagram htry
  obtain ⟨packet, -, hcall⟩ := ha.decrypt call.dst call.now
  exact hrun.accepted hcall ha

-- Pings sealed with `sampleKey`, each under the nonce 2 ^ 127 + k.
def samplePing1 : List UInt8 := [1, 48, 182, 219, 59, 9]
def samplePing2 : List UInt8 := [2, 207, 12, 126, 158, 205]
def samplePing101 : List UInt8 := [101, 254, 37, 201, 141, 95]
def samplePing201 : List UInt8 := [201, 151, 152, 222, 161, 116]
def samplePing258 : List UInt8 := [2, 66, 86, 239, 137, 12]

def sampleReceiver : CryptState := .default sampleKey (.new sampleKey) 0

theorem sampleReceiver_fresh : sampleReceiver.Fresh := .inl ⟨_, _, _, rfl⟩

-- The peer of that receiver, after k packets.
def samplePeer (k : Nat) : CryptState :=
  { sampleReceiver with encryptNonce := nonceAt (2 ^ 127 + k) }

theorem samplePeer_encrypt (k : Nat) {dir : VoicePacketDst} {packet : VoicePacket dir}
    {sealed : List UInt8} {tag : Block}
    (h : ocbEncrypt (.new sampleKey) (nonceAt (2 ^ 127 + (k + 1)))
      (encodeVoicePacket packet []) = .ok (sealed, tag)) :
    (samplePeer k).encrypt packet [] = .ok (samplePeer (k + 1),
      UInt8.ofNat (2 ^ 127 + (k + 1)) :: (tag.toBeBytes.take 3 ++ sealed)) := by
  have hnext : (samplePeer k).encryptNonce + 1 = nonceAt (2 ^ 127 + (k + 1)) :=
    nonceAt_succ (2 ^ 127 + k)
  rw [← hnext] at h
  rw [CryptState.encrypt_eq [] h, hnext, nonceAt_asU8]
  rfl

theorem nonces_nodup_sample :
    ∃ calls accepted top c', DecryptRun sampleReceiver calls accepted top c' ∧
      accepted.map Accepted.datagram = [samplePing2, samplePing1] ∧
      (accepted.map Accepted.nonce).Nodup := by
  have hfirst := accept_datagram (c := sampleReceiver) .nil ⟨.ServerBound, 1, samplePing1⟩
    (nonceAt (2 ^ 127 + 1)) false 0 (by decide +kernel)
  have hrun := hfirst.accept_datagram ⟨.ServerBound, 2, samplePing2⟩
    (nonceAt (2 ^ 127 + 2)) false 0 (by decide +kernel)
  exact ⟨_, _, _, _, hrun, rfl, (nonces_nodup sampleReceiver_fresh hrun (by decide +kernel)).1⟩

-- A datagram whose three tag bytes fit two nonces with the same low byte.
def sampleTwice : List UInt8 :=
  [1, 55, 15, 255, 0, 0, 0, 0, 0, 0, 0, 0, 0, 0, 0, 0, 0, 114, 123, 132]

-- It is accepted under 2 ^ 127 + 1 and, two other packets later, under
-- 2 ^ 127 + 257: only its low nonce byte travels with it.
theorem datagram_accepted_twice :
    ∃ calls accepted top c', DecryptRun sampleReceiver calls accepted top c' ∧
      top - 2 ^ 127 < 2 ^ 127 ∧
      accepted.map Accepted.datagram = [sampleTwice, samplePing201, samplePing101, sampleTwice] ∧
      ¬(accepted.map Accepted.datagram).Nodup := by
  have h1 := accept_datagram (c := sampleReceiver) .nil ⟨.ServerBound, 1, sampleTwice⟩
    (nonceAt (2 ^ 127 + 1)) false 0 (by decide +kernel)
  have h101 := h1.accept_datagram ⟨.ServerBound, 2, samplePing101⟩
    (nonceAt (2 ^ 127 + 101)) false 99 (by decide +kernel)
  have h201 := h101.accept_datagram ⟨.ServerBound, 3, samplePing201⟩
    (nonceAt (2 ^ 127 + 201)) false 99 (by decide +kernel)
  have h257 := h201.accept_datagram ⟨.ServerBound, 4, sampleTwice⟩
    (nonceAt (2 ^ 127 + 257)) false 55 (by decide +kernel)
  exact ⟨_, _, _, _, h257, by decide +kernel, rfl, by decide +kernel⟩

-- What the slot of position n remembers is not the page of n: the position
-- accepted last with the same low byte differs from n in the next byte or,
-- where there is none, that byte of n is not the initial zero.
def SlotDiffers (accepted : List Accepted) (n : Nat) : Prop :=
  ((Window.lastIn SLOTS (accepted.map Accepted.position) (n % SLOTS)).map pageOf).getD 0 ≠ pageOf n

instance (accepted : List Accepted) (n : Nat) : Decidable (SlotDiffers accepted n) :=
  inferInstanceAs (Decidable (_ ≠ _))

theorem slotDiffers_iff (hfresh : c.Fresh) (hrun : DecryptRun c calls accepted top c') (n : Nat) :
    SlotDiffers accepted n ↔ c'.decryptHistory (UInt8.ofNat n) ≠ pageOf n := by
  have hslot := ((hrun.lift hfresh).run.inv (by decide)).slot_eq (n % SLOTS)
  rw [CryptState.window_slot, CryptState.window_slot, hfresh.decryptHistory] at hslot
  rw [hslot, SlotDiffers]

-- A genuine datagram less than 30 behind is accepted as late exactly when its
-- slot remembers another page; otherwise it is refused as a repeat.
theorem late_accepted_iff {dir : VoicePacketDst} {packet : VoicePacket dir}
    {s s' : CryptState} {dst datagram : List UInt8} {n : Nat}
    (hfresh : c.Fresh) (hrun : DecryptRun c calls accepted top c')
    (hkey : s.aes = c.aes) (hinverse : c.aes.Inverse)
    (hsent : s.encrypt packet dst = .ok (s', datagram)) (hnonce : s'.encryptNonce = nonceAt n)
    (hlate : n < top) (hnear : top ≤ n + 29) :
    ((∃ lost plain, c'.Accepts datagram (nonceAt n) true lost plain) ↔
        SlotDiffers accepted n) ∧
      (¬SlotDiffers accepted n → ∀ dst now,
        c'.decrypt dst now datagram = .ok (c', .error .Repeat)) := by
  have hlift := hrun.lift hfresh
  obtain ⟨sealed, tag, rfl, rfl, hdec⟩ := CryptState.encrypt_sealed (hkey ▸ hinverse) hsent
  change s.encryptNonce + 1 = nonceAt n at hnonce
  rw [hnonce, hkey, ← hlift.aes] at hdec
  rw [hnonce, nonceAt_asU8]
  have hrec := CryptState.reconstructNonce_late hlift.nonce (n := n) (by omega)
    (by unfold LATE_WINDOW; omega)
  rw [slotDiffers_iff hfresh hrun n]
  refine ⟨⟨?_, ?_⟩, ?_⟩
  · rintro ⟨lost, plain, haccepts⟩ hpage
    have hbad := haccepts.reconstructs
    rw [List.headD_cons, hrec, if_pos hpage] at hbad
    cases hbad
  · intro hpage
    rw [if_neg hpage] at hrec
    exact ⟨-1, _, CryptState.accepts_sealed _ hdec hrec⟩
  · intro hsame dst' now
    rw [if_pos (not_not.mp hsame)] at hrec
    simp only [CryptState.decrypt, List.length_cons, List.length_append, List.length_take,
      Block.length_toBeBytes]
    rw [if_neg (by omega), splitTo_eq (by simp)]
    simp only [Exec.ok_bind, List.take_succ_cons, index, List.getElem?_cons_zero, hrec]
    rfl

-- Behind 2 ^ 127 + 258, with nothing accepted before in its slot, the packet of
-- 2 ^ 127 + 257 is let through: its second byte is one.
theorem late_accepted_iff_sample :
    ∃ calls accepted top c' datagram lost plain,
      DecryptRun sampleReceiver calls accepted top c' ∧
      (samplePeer 256).encrypt samplePing [] = .ok (samplePeer 257, datagram) ∧
      c'.Accepts datagram (nonceAt (2 ^ 127 + 257)) true lost plain := by
  have hinverse : (samplePeer 256).aes.Inverse := Aes128.new_inverse sampleKey
  obtain ⟨sealed, tag, hseal, -⟩ := ocbDecrypt_ocbEncrypt hinverse (nonceAt (2 ^ 127 + 257))
    (encodeVoicePacket samplePing [])
  have hsent := samplePeer_encrypt 256 hseal
  have h101 := accept_datagram (c := sampleReceiver) .nil ⟨.ServerBound, 1, samplePing101⟩
    (nonceAt (2 ^ 127 + 101)) false 100 (by decide +kernel)
  have h201 := h101.accept_datagram ⟨.ServerBound, 2, samplePing201⟩
    (nonceAt (2 ^ 127 + 201)) false 99 (by decide +kernel)
  have h258 := h201.accept_datagram ⟨.ServerBound, 3, samplePing258⟩
    (nonceAt (2 ^ 127 + 258)) false 56 (by decide +kernel)
  have hkey : (samplePeer 256).aes = sampleReceiver.aes := rfl
  have hiff := (late_accepted_iff (n := 2 ^ 127 + 257) sampleReceiver_fresh h258 hkey hinverse
    hsent rfl (by decide +kernel) (by decide +kernel)).1
  obtain ⟨lost, plain, ha⟩ := hiff.mpr (by decide +kernel)
  exact ⟨_, _, _, _, _, lost, plain, h258, hsent, ha⟩

-- The first two packets after a reset, delivered in the other order: the table
-- still holds its initial zero, which is the second byte of the first nonce.
theorem late_refused_as_repeat :
    ∃ c₁,
      (samplePeer 0).encrypt samplePing [] = .ok (samplePeer 1, samplePing1) ∧
      (samplePeer 1).encrypt samplePing [] = .ok (samplePeer 2, samplePing2) ∧
      DecryptRun sampleReceiver [⟨.ServerBound, 1, samplePing2⟩]
        [⟨2 ^ 127 + 2, nonceAt (2 ^ 127 + 2), samplePing2⟩] (2 ^ 127 + 2) c₁ ∧
      c₁.decrypt .ServerBound 2 samplePing1 = .ok (c₁, .error .Repeat) := by
  have hseal1 : ocbEncrypt (.new sampleKey) (nonceAt (2 ^ 127 + (0 + 1)))
      (encodeVoicePacket samplePing []) =
      .ok ([59, 9], 0x30b6db1463e61963af963b8ba8d5287a) := by decide +kernel
  have hseal2 : ocbEncrypt (.new sampleKey) (nonceAt (2 ^ 127 + (1 + 1)))
      (encodeVoicePacket samplePing []) =
      .ok ([158, 205], 0xcf0c7e797b01378d4279166e9f254013) := by decide +kernel
  have hbytes1 : UInt8.ofNat (2 ^ 127 + (0 + 1)) ::
      ((Block.toBeBytes 0x30b6db1463e61963af963b8ba8d5287a).take 3 ++ [59, 9]) = samplePing1 := by
    decide +kernel
  have hbytes2 : UInt8.ofNat (2 ^ 127 + (1 + 1)) ::
      ((Block.toBeBytes 0xcf0c7e797b01378d4279166e9f254013).take 3 ++ [158, 205]) =
      samplePing2 := by
    decide +kernel
  have hsent1 := samplePeer_encrypt 0 hseal1
  have hsent2 := samplePeer_encrypt 1 hseal2
  rw [hbytes1] at hsent1
  rw [hbytes2] at hsent2
  have hrun := accept_datagram (c := sampleReceiver) .nil ⟨.ServerBound, 1, samplePing2⟩
    (nonceAt (2 ^ 127 + 2)) false 1 (by decide +kernel)
  have hposition : positionOf sampleReceiver.decryptNonce.toNat sampleReceiver.decryptNonce
      (nonceAt (2 ^ 127 + 2)) false = 2 ^ 127 + 2 := by decide +kernel
  simp only [hposition, Bool.false_eq_true, if_false] at hrun
  exact ⟨_, hsent1, hsent2, hrun, rfl⟩

end DecryptRun

end Mumble
