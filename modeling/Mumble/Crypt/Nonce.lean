import Mumble.Crypt.Theorems

namespace Mumble

open Mumble.Lib

-- The calls that change a `CryptState`. A reset comes from
-- `ServerState::reset_client_crypt`, through `Client::send_crypt_setup(true)`.
inductive CryptOp where
  | Encrypt (dir : VoicePacketDst) (packet : VoicePacket dir) (dst : List UInt8)
  | Decrypt (dst : VoicePacketDst) (now : Instant) (datagram : List UInt8)
  | SetDecryptNonce (nonce : List UInt8)
  | Reset (now : Instant)

namespace CryptOp

def isEncrypt : CryptOp → Bool
  | .Encrypt .. => true
  | _ => false

def apply (c : CryptState) : CryptOp → Exec CryptState
  | .Encrypt _ packet dst => do
      let (c, _) ← c.encrypt packet dst
      return c
  | .Decrypt dst now datagram => do
      let (c, _) ← c.decrypt dst now datagram
      return c
  | .SetDecryptNonce nonce => c.setDecryptNonce nonce
  | .Reset now => .ok (c.reset now)

-- The nonces that the call hands to `ocb_encrypt`: what `encrypt` writes is the packet
-- sealed under that nonce, with which it leaves the state.
def SealsUnder (c : CryptState) : CryptOp → List Block → Prop
  | .Encrypt _ packet dst, used => ∃ nonce sealed tag, used = [nonce] ∧
      ocbEncrypt c.aes nonce (encodeVoicePacket packet []) = .ok (sealed, tag) ∧
      c.encrypt packet dst = .ok ({ c with encryptNonce := nonce },
        nonce.asU8 :: (tag.toBeBytes.take 3 ++ sealed))
  | _, used => used = []

-- It is the stored nonce, after `encrypt` has advanced it.
def usedNonces (c : CryptState) : CryptOp → List Block
  | .Encrypt .. => [c.encryptNonce + 1]
  | _ => []

theorem sealsUnder_iff {c : CryptState} {op : CryptOp} {used : List Block} :
    op.SealsUnder c used ↔ used = op.usedNonces c := by
  cases op with
  | Encrypt dir packet dst =>
      constructor
      · rintro ⟨nonce, sealed, tag, rfl, -, hout⟩
        have hnonce : nonce = c.encryptNonce + 1 := CryptState.encrypt_encryptNonce hout
        rw [hnonce]
        rfl
      · rintro rfl
        obtain ⟨sealed, tag, hseal, -⟩ :=
          ocbEncrypt_returns c.aes (c.encryptNonce + 1) (encodeVoicePacket packet [])
        exact ⟨_, sealed, tag, rfl, hseal, CryptState.encrypt_eq dst hseal⟩
  | _ => exact Iff.rfl

end CryptOp

-- A run of calls on one state, with the nonces it encrypts under, in order. A
-- call that panics ends the process, so it is never followed by another.
inductive CryptRun : CryptState → List CryptOp → List Block → CryptState → Prop where
  | nil (c : CryptState) : CryptRun c [] [] c
  | cons {c c' c'' : CryptState} {op : CryptOp} {ops : List CryptOp} {used nonces : List Block}
      (happly : op.apply c = .ok c') (hused : op.SealsUnder c used)
      (hrun : CryptRun c' ops nonces c'') : CryptRun c (op :: ops) (used ++ nonces) c''

-- Some reset has an encryption before it and one after it.
def ResetBetween (ops : List CryptOp) : Prop :=
  ∃ before now after, ops = before ++ .Reset now :: after ∧
    before.any CryptOp.isEncrypt ∧ after.any CryptOp.isEncrypt

-- Some reset has an encryption after it.
def ResetBefore (ops : List CryptOp) : Prop :=
  ∃ before now after, ops = before ++ .Reset now :: after ∧ after.any CryptOp.isEncrypt

section

variable {c c' c'' : CryptState} {op : CryptOp} {ops : List CryptOp} {nonces : List Block}

-- What one call does to the encrypt nonce.
theorem CryptOp.apply_encryptNonce (h : op.apply c = .ok c') :
    c'.encryptNonce = match op with
      | .Encrypt .. => c.encryptNonce + 1
      | .Reset _ => 0
      | _ => c.encryptNonce := by
  cases op with
  | Encrypt dir packet dst =>
      simp only [CryptOp.apply, Exec.bind_eq_ok] at h
      obtain ⟨⟨c₁, out⟩, henc, hc⟩ := h
      cases hc
      exact CryptState.encrypt_encryptNonce henc
  | Decrypt dst now datagram =>
      simp only [CryptOp.apply, Exec.bind_eq_ok] at h
      obtain ⟨⟨c₁, packet⟩, hdec, hc⟩ := h
      cases hc
      exact CryptState.decrypt_encryptNonce hdec
  | SetDecryptNonce nonce =>
      simp only [CryptOp.apply, CryptState.setDecryptNonce, Exec.bind_eq_ok] at h
      obtain ⟨bytes, -, hc⟩ := h
      cases hc
      rfl
  | Reset now =>
      cases h
      rfl

theorem CryptRun.of_apply (happly : op.apply c = .ok c') (hrun : CryptRun c' ops nonces c'') :
    CryptRun c (op :: ops) (op.usedNonces c ++ nonces) c'' :=
  .cons happly (CryptOp.sealsUnder_iff.mpr rfl) hrun

theorem not_resetBefore_tail (h : ¬ResetBefore (op :: ops)) : ¬ResetBefore ops := by
  rintro ⟨before, now, after, rfl, hafter⟩
  exact h ⟨op :: before, now, after, rfl, hafter⟩

theorem not_resetBetween_tail (h : ¬ResetBetween (op :: ops)) : ¬ResetBetween ops := by
  rintro ⟨before, now, after, rfl, hbefore, hafter⟩
  exact h ⟨op :: before, now, after, rfl, by simp [hbefore], hafter⟩

theorem CryptRun.nonces_eq_nil (hrun : CryptRun c ops nonces c'')
    (h : ops.any CryptOp.isEncrypt = false) : nonces = [] := by
  induction hrun with
  | nil c => rfl
  | @cons c c' c'' op ops used nonces happly hused hrun ih =>
      obtain rfl := CryptOp.sealsUnder_iff.mp hused
      simp only [List.any_cons, Bool.or_eq_false_iff] at h
      rw [ih h.2, List.append_nil]
      cases op <;> first | rfl | simp [CryptOp.isEncrypt] at h

-- Until a reset that is followed by an encryption, the nonces are consecutive.
theorem CryptRun.nonces_eq (hrun : CryptRun c ops nonces c'') (h : ¬ResetBefore ops) :
    nonces = (List.range nonces.length).map
      fun i => c.encryptNonce + BitVec.ofNat 128 (i + 1) := by
  induction hrun with
  | nil c => rfl
  | @cons c c' c'' op ops used nonces happly hused hrun ih =>
      obtain rfl := CryptOp.sealsUnder_iff.mp hused
      have hnonce := CryptOp.apply_encryptNonce happly
      have htail := ih (not_resetBefore_tail h)
      cases op with
      | Encrypt dir packet dst =>
          simp only [CryptOp.usedNonces, List.singleton_append, List.length_cons,
            List.range_succ_eq_map, List.map_cons, List.map_map]
          refine congrArg₂ List.cons rfl ?_
          conv_lhs => rw [htail]
          refine List.map_congr_left fun i _ => ?_
          simp only [hnonce, Function.comp_apply]
          apply BitVec.eq_of_toNat_eq
          have hone : (1 : Block).toNat = 1 := rfl
          simp only [BitVec.toNat_add, BitVec.toNat_ofNat, hone]
          omega
      | Decrypt dst now datagram => simpa only [CryptOp.usedNonces, List.nil_append, hnonce] using htail
      | SetDecryptNonce nonce => simpa only [CryptOp.usedNonces, List.nil_append, hnonce] using htail
      | Reset now =>
          have hnone : ops.any CryptOp.isEncrypt = false := by
            rw [← Bool.not_eq_true]
            exact fun hafter => h ⟨[], now, ops, rfl, hafter⟩
          rw [hrun.nonces_eq_nil hnone]
          rfl

theorem nodup_consecutive (start : Block) {n : Nat} (h : n < 2 ^ 128) :
    ((List.range n).map fun i => start + BitVec.ofNat 128 (i + 1)).Nodup := by
  refine List.Nodup.map_on ?_ List.nodup_range
  intro i hi j hj hij
  rw [List.mem_range] at hi hj
  have hsum := congrArg BitVec.toNat hij
  have hstart := start.isLt
  simp only [BitVec.toNat_add, BitVec.toNat_ofNat] at hsum
  omega

-- From a state whose nonce is zero, the first encryption uses nonce one,
-- however many resets come before it.
theorem CryptRun.one_mem (hrun : CryptRun c ops nonces c'') (hzero : c.encryptNonce = 0)
    (h : ops.any CryptOp.isEncrypt = true) : 1 ∈ nonces := by
  induction hrun with
  | nil c => simp at h
  | @cons c c' c'' op ops used nonces happly hused hrun ih =>
      obtain rfl := CryptOp.sealsUnder_iff.mp hused
      have hnonce := CryptOp.apply_encryptNonce happly
      cases op with
      | Encrypt dir packet dst => simp [CryptOp.usedNonces, hzero]
      | Decrypt dst now datagram => exact ih (hnonce.trans hzero) (by simpa [CryptOp.isEncrypt] using h)
      | SetDecryptNonce nonce => exact ih (hnonce.trans hzero) (by simpa [CryptOp.isEncrypt] using h)
      | Reset now => exact ih hnonce (by simpa [CryptOp.isEncrypt] using h)

theorem CryptRun.append_inv {before after : List CryptOp} (hrun : CryptRun c (before ++ after) nonces c'') :
    ∃ c' first second, CryptRun c before first c' ∧ CryptRun c' after second c'' ∧
      nonces = first ++ second := by
  induction before generalizing c nonces with
  | nil => exact ⟨c, [], nonces, .nil c, hrun, rfl⟩
  | cons op before ih =>
      cases hrun with
      | cons happly hused hrun =>
          obtain ⟨c', first, second, hfirst, hsecond, rfl⟩ := ih hrun
          exact ⟨c', _, second, .cons happly hused hfirst, hsecond, (List.append_assoc ..).symm⟩

theorem CryptRun.not_nodup (hrun : CryptRun c ops nonces c'') (hzero : c.encryptNonce = 0)
    (h : ResetBetween ops) : ¬nonces.Nodup := by
  obtain ⟨before, now, after, rfl, hbefore, hafter⟩ := h
  obtain ⟨c₁, first, second, hfirst, hsecond, rfl⟩ := hrun.append_inv
  cases hsecond with
  | cons happly hused hrest =>
      have hone := hfirst.one_mem hzero hbefore
      have hagain := hrest.one_mem (CryptOp.apply_encryptNonce happly) hafter
      intro hnodup
      exact (List.nodup_append.mp hnodup).2.2 1 hone 1
        (List.mem_append_right _ hagain) rfl

theorem CryptRun.nodup (hrun : CryptRun c ops nonces c'') (hlen : nonces.length < 2 ^ 128)
    (h : ¬ResetBetween ops) : nonces.Nodup := by
  induction hrun with
  | nil c => exact List.nodup_nil
  | @cons c c' c'' op ops used nonces happly hused hrun ih =>
      obtain rfl := CryptOp.sealsUnder_iff.mp hused
      by_cases hop : op.isEncrypt = true
      · -- after this encryption no reset is followed by another one
        have hbefore : ¬ResetBefore (op :: ops) := by
          rintro ⟨before, now, after, heq, hafter⟩
          cases before with
          | nil =>
              cases heq
              simp [CryptOp.isEncrypt] at hop
          | cons first before =>
              cases heq
              exact h ⟨op :: before, now, after, rfl, by simp [hop], hafter⟩
        rw [(CryptRun.cons happly hused hrun).nonces_eq hbefore]
        exact nodup_consecutive _ hlen
      · have hnone : op.usedNonces c = [] := by
          cases op <;> first | rfl | simp [CryptOp.isEncrypt] at hop
        rw [hnone, List.nil_append] at hlen ⊢
        exact ih hlen (not_resetBetween_tail h)

end

-- Nonces repeat under one key exactly when a reset stands between two
-- encryptions: `reset` rewinds the counter to zero and keeps the key.
theorem CryptRun.nodup_iff {key : Vector UInt8 KEY_SIZE} {aes : Aes128} {now : Instant}
    {ops : List CryptOp} {nonces : List Block} {c : CryptState}
    (hrun : CryptRun (.default key aes now) ops nonces c) (hlen : nonces.length < 2 ^ 128) :
    nonces.Nodup ↔ ¬ResetBetween ops :=
  ⟨fun hnodup hreset => hrun.not_nodup rfl hreset hnodup, fun h => hrun.nodup hlen h⟩

def sampleKey : Vector UInt8 KEY_SIZE :=
  ⟨#[0, 1, 2, 3, 4, 5, 6, 7, 8, 9, 10, 11, 12, 13, 14, 15], rfl⟩

def samplePing : VoicePacket .ClientBound := .Ping 7

theorem CryptOp.apply_encrypt {c : CryptState} (hinv : c.aes.Inverse) (dir : VoicePacketDst)
    (packet : VoicePacket dir) (dst : List UInt8) :
    (CryptOp.Encrypt dir packet dst).apply c =
      .ok { c with encryptNonce := c.encryptNonce + 1 } := by
  obtain ⟨sealed, tag, henc, -⟩ :=
    ocbDecrypt_ocbEncrypt hinv (c.encryptNonce + 1) (encodeVoicePacket packet [])
  rw [CryptOp.apply, CryptState.encrypt_eq dst henc]
  rfl

def sampleSender : CryptState := .default sampleKey (.new sampleKey) 0

-- Two packets with an empty datagram received in between: nonces one and two.
theorem CryptRun.nodup_iff_sample :
    let ops := [CryptOp.Encrypt .ClientBound samplePing [], .Decrypt .ServerBound 1 [],
      .Encrypt .ClientBound samplePing []]
    ∃ c, CryptRun sampleSender ops [1, 2] c ∧
      (([1, 2] : List Block).Nodup ↔ ¬ResetBetween ops) := by
  have hsend (c : CryptState) (haes : c.aes = .new sampleKey) :=
    CryptOp.apply_encrypt (haes ▸ Aes128.new_inverse sampleKey) .ClientBound samplePing []
  have hdecrypt (c : CryptState) : (CryptOp.Decrypt .ServerBound 1 []).apply c = .ok c := rfl
  have hrun := CryptRun.of_apply (hsend sampleSender rfl)
    (.of_apply (hdecrypt _) (.of_apply (hsend _ rfl) (.nil _)))
  exact ⟨_, hrun, CryptRun.nodup_iff hrun (by decide)⟩

-- A reset between two packets, as after a failed tag check on the UDP socket:
-- both are encrypted under nonce one of the same key.
theorem nonce_reused_after_reset :
    ∃ c, CryptRun sampleSender
      [.Encrypt .ClientBound samplePing [], .Reset 1, .Encrypt .ClientBound samplePing []]
      [1, 1] c ∧ c.key = sampleKey ∧ ¬([1, 1] : List Block).Nodup := by
  have hsend (c : CryptState) (haes : c.aes = .new sampleKey) :=
    CryptOp.apply_encrypt (haes ▸ Aes128.new_inverse sampleKey) .ClientBound samplePing []
  have hreset (c : CryptState) : (CryptOp.Reset 1).apply c = .ok (c.reset 1) := rfl
  have hrun := CryptRun.of_apply (hsend sampleSender rfl)
    (.of_apply (hreset _) (.of_apply (hsend _ rfl) (.nil _)))
  exact ⟨_, hrun, rfl, by decide⟩

end Mumble
