import Mumble.Crypt.Replay
import Mumble.Lib.Run

namespace Mumble

open Mumble.Lib

-- The counters of `decrypt`: what they say about the nonces that were accepted.

theorem CryptState.Fresh.counters {c : CryptState} (h : c.Fresh) :
    c.good = 0 ∧ c.late = 0 ∧ c.lost = 0 := by
  rcases h with ⟨key, aes, now, rfl⟩ | ⟨c₀, now, rfl⟩
  · exact ⟨rfl, rfl, rfl⟩
  · exact ⟨rfl, rfl, rfl⟩

namespace DecryptRun

variable {c c' : CryptState} {calls : List DecryptCall} {accepted : List Accepted} {top : Nat}

-- The counters after a run, in the positions it accepted.
structure Ledger (accepted : List Accepted) (top : Nat) (c : CryptState) : Prop where
  good : c.good = UInt32.ofNat accepted.length
  balance : c.good + c.lost = UInt32.ofNat (top - 2 ^ 127)
  late : (∀ a ∈ accepted, 2 ^ 127 < a.position) →
    c.late = UInt32.ofNat (Window.lates (2 ^ 127) (accepted.map Accepted.position))

-- A packet ahead of the top pays for itself and for the gap before it.
theorem balance_ahead {good lost : UInt32} {n : Nat} (hstart : 2 ^ 127 ≤ top) (hlt : top < n)
    (h : good + lost = UInt32.ofNat (top - 2 ^ 127)) :
    good + 1 + (lost + (Int32.ofNat (n - top - 1)).toUInt32) = UInt32.ofNat (n - 2 ^ 127) := by
  have hadvance : n - 2 ^ 127 = (top - 2 ^ 127) + (1 + (n - top - 1)) := by omega
  rw [hadvance, UInt32.ofNat_add, UInt32.ofNat_add, ← h, Int32.toUInt32_ofNat']
  change good + 1 + (lost + _) = good + lost + (1 + _)
  ac_rfl

-- A late one was paid for as lost.
theorem balance_late {good lost : UInt32} :
    good + 1 + (lost + (-1 : Int32).toUInt32) = good + lost := by
  have hminus : (1 : UInt32) + (-1 : Int32).toUInt32 = 0 := by decide
  calc good + 1 + (lost + (-1 : Int32).toUInt32)
      = good + lost + (1 + (-1 : Int32).toUInt32) := by ac_rfl
    _ = good + lost := by rw [hminus, UInt32.add_zero]

theorem ledger (hfresh : c.Fresh) (hrun : DecryptRun c calls accepted top c') :
    Ledger accepted top c' := by
  induction hrun with
  | nil =>
      obtain ⟨hgood, hlate, hlost⟩ := hfresh.counters
      refine ⟨hgood, ?_, fun _ => hlate⟩
      rw [hgood, hlost, hfresh.decryptNonce]
      rfl
  | @refused calls accepted top c' c'' call packet hrun hcall hno ih =>
      rw [CryptState.unchanged_of_refused hcall hno]
      exact ih
  | @accepted calls accepted top c' c'' call packet nonce late lost plain hrun hcall ha ih =>
      have hlift := hrun.lift hfresh
      have htop : (accepted.map Accepted.position).foldr max (2 ^ 127) = top :=
        hlift.run.top_eq.symm
      rw [ha.next hcall]
      obtain ⟨n, -, rfl, ⟨rfl, rfl, hlt, hnear, hstep⟩ | ⟨rfl, rfl, hle, hnear, hstep⟩⟩ :=
        ha.step call.now hlift.nonce hlift.big
      · rw [hlift.nonce, positionOf_ahead hlt hnear]
        refine ⟨?_, balance_ahead hlift.start_le hlt ih.balance, ?_⟩
        · rw [List.length_cons, UInt32.ofNat_add, ← ih.good]
          rfl
        · intro habove
          have hnot : ¬n < top := by omega
          rw [List.map_cons, Window.lates, htop, if_neg hnot]
          exact ih.late fun a ha => habove a (List.mem_cons_of_mem _ ha)
      · rw [hlift.nonce, positionOf_late hle hnear]
        refine ⟨?_, balance_late.trans ih.balance, ?_⟩
        · rw [List.length_cons, UInt32.ofNat_add, ← ih.good]
          rfl
        · intro habove
          have hstart : 2 ^ 127 < n := habove _ (List.mem_cons_self ..)
          have hbelow : n < top := hlift.run.lt_top (by decide) hstep hstart hle
          have hearlier := ih.late fun a ha => habove a (List.mem_cons_of_mem _ ha)
          rw [List.map_cons, Window.lates, htop, if_pos hbelow, UInt32.ofNat_add, ← hearlier]
          rfl

-- While the nonces have not wrapped, they are their positions.
theorem toNat_nonces (hfresh : c.Fresh) (hrun : DecryptRun c calls accepted top c')
    (hadvance : top - 2 ^ 127 < 2 ^ 127) :
    accepted.map (fun a => a.nonce.toNat) = accepted.map Accepted.position := by
  have hlift := hrun.lift hfresh
  apply List.map_congr_left
  intro a ha
  have hle : a.position ≤ top :=
    (hlift.run.inv (by decide)).le_top _ (List.mem_map_of_mem ha)
  rw [hlift.entries a ha, nonceAt, BitVec.toNat_ofNat, Nat.mod_eq_of_lt (by omega)]

-- Packet accounting: while `decrypt_nonce` has moved by less than 2 ^ 31, `good` and `lost`
-- add up to the move, and `decrypt_nonce` is the highest nonce accepted. If every accepted
-- nonce is above the first one, then `lost` is the number of nonces left out, `late` that of
-- the nonces accepted below a higher one, and no counter has wrapped.
theorem accounting (hfresh : c.Fresh) (hrun : DecryptRun c calls accepted top c')
    (hadvance : top - c.decryptNonce.toNat < 2 ^ 31) :
    (c'.good + c'.lost).toBitVec = (c'.decryptNonce - c.decryptNonce).setWidth 32 ∧
      c'.decryptNonce.toNat =
        (accepted.map fun a => a.nonce.toNat).foldr max c.decryptNonce.toNat ∧
      ((∀ a ∈ accepted, c.decryptNonce < a.nonce) →
        c'.lost.toNat = (Window.missing c.decryptNonce.toNat c'.decryptNonce.toNat
          (accepted.map fun a => a.nonce.toNat)).card ∧
        c'.late.toNat = Window.lates c.decryptNonce.toNat (accepted.map fun a => a.nonce.toNat) ∧
        c'.good.toNat = accepted.length) := by
  have hstart : c.decryptNonce.toNat = 2 ^ 127 := by
    rw [hfresh.decryptNonce]
    rfl
  rw [hstart] at hadvance ⊢
  have hlift := hrun.lift hfresh
  have hledger := hrun.ledger hfresh
  have hstartle := hlift.start_le
  have htop : c'.decryptNonce.toNat = top := by
    rw [hlift.nonce, nonceAt, BitVec.toNat_ofNat, Nat.mod_eq_of_lt (by omega)]
  have hmax : top = (accepted.map Accepted.position).foldr max (2 ^ 127) := hlift.run.top_eq
  rw [hrun.toNat_nonces hfresh (by omega), htop]
  refine ⟨?_, hmax, ?_⟩
  · rw [hledger.balance]
    apply BitVec.eq_of_toNat_eq
    rw [BitVec.toNat_setWidth, BitVec.toNat_sub, hstart, htop, UInt32.toNat_toBitVec,
      UInt32.toNat_ofNat']
    omega
  · intro habove
    have habove' : ∀ n ∈ accepted.map Accepted.position, 2 ^ 127 < n := by
      intro n hn
      obtain ⟨a, ha, rfl⟩ := List.mem_map.mp hn
      have hlt := BitVec.lt_def.mp (habove a ha)
      have hnonce : a.nonce.toNat ≤ a.position := by
        rw [hlift.entries a ha, nonceAt, BitVec.toNat_ofNat]
        exact Nat.mod_le _ _
      omega
    have hcard : (Window.missing (2 ^ 127) top (accepted.map Accepted.position)).card +
        (accepted.map Accepted.position).length = top - 2 ^ 127 :=
      hlift.run.card_missing (by decide) habove'
    have hlates := Window.lates_le_length (2 ^ 127) (accepted.map Accepted.position)
    rw [List.length_map] at hcard hlates
    have hgood : c'.good.toNat = accepted.length := by
      rw [hledger.good, UInt32.toNat_ofNat']
      omega
    have hbalance := congrArg UInt32.toNat hledger.balance
    rw [UInt32.toNat_add, hgood, UInt32.toNat_ofNat'] at hbalance
    have hlost := c'.lost.toNat_lt
    refine ⟨by omega, ?_, hgood⟩
    rw [hledger.late fun a ha => habove' _ (List.mem_map_of_mem ha), UInt32.toNat_ofNat']
    omega

-- The ping of 2 ^ 127 + 257, sealed with `sampleKey`.
def samplePing257 : List UInt8 := [1, 174, 49, 100, 82, 147]

-- Of the first 258 packets four arrive, and the one before the last comes late.
theorem accounting_sample :
    ∃ calls accepted top c', DecryptRun sampleReceiver calls accepted top c' ∧
      c'.lost.toNat = (Window.missing sampleReceiver.decryptNonce.toNat c'.decryptNonce.toNat
        (accepted.map fun a => a.nonce.toNat)).card ∧
      c'.good.toNat = 4 ∧ c'.late.toNat = 1 ∧ c'.lost.toNat = 254 := by
  have h101 := accept_datagram (c := sampleReceiver) .nil ⟨.ServerBound, 1, samplePing101⟩
    (nonceAt (2 ^ 127 + 101)) false 100 (by decide +kernel)
  have h201 := h101.accept_datagram ⟨.ServerBound, 2, samplePing201⟩
    (nonceAt (2 ^ 127 + 201)) false 99 (by decide +kernel)
  have h258 := h201.accept_datagram ⟨.ServerBound, 3, samplePing258⟩
    (nonceAt (2 ^ 127 + 258)) false 56 (by decide +kernel)
  have hrun := h258.accept_datagram ⟨.ServerBound, 4, samplePing257⟩
    (nonceAt (2 ^ 127 + 257)) true (-1) (by decide +kernel)
  have hall := (accounting sampleReceiver_fresh hrun (by decide +kernel)).2.2 (by decide +kernel)
  exact ⟨_, _, _, _, hrun, hall.1, hall.2.2, hall.2.1.trans (by decide +kernel), by decide +kernel⟩

end DecryptRun

-- The calls on a receiver: a datagram, or the nonce of a `CryptSetup` message.
inductive ReceiverCall where
  | Decrypt (dst : VoicePacketDst) (now : Instant) (datagram : List UInt8)
  | SetDecryptNonce (nonce : List UInt8)

-- A receiver with two numbers that the code does not keep: how far `decrypt_nonce` has moved
-- since it was last installed, and the exact sum of what was added to `lost`.
structure Receiver where
  crypt : CryptState
  advance : Nat
  lost : Int

namespace Receiver

inductive Step : Receiver → ReceiverCall → Receiver → Prop where
  | Refused {t : Receiver} {dst : VoicePacketDst} {now : Instant} {datagram : List UInt8}
      {c' : CryptState} {packet : Except DecryptError (VoicePacket dst)}
      (hcall : t.crypt.decrypt dst now datagram = .ok (c', packet))
      (hrefused : ¬t.crypt.Verifies datagram) :
      Step t (.Decrypt dst now datagram) { t with crypt := c' }
  | Accepted {t : Receiver} {dst : VoicePacketDst} {now : Instant} {datagram : List UInt8}
      {c' : CryptState} {packet : Except DecryptError (VoicePacket dst)}
      {nonce : Block} {late : Bool} {lost : Int32} {plain : List UInt8}
      (hcall : t.crypt.decrypt dst now datagram = .ok (c', packet))
      (haccepts : t.crypt.Accepts datagram nonce late lost plain) :
      Step t (.Decrypt dst now datagram)
        { crypt := c'
          advance := if late then t.advance
            else t.advance + (nonce - t.crypt.decryptNonce).toNat
          lost := t.lost + lost.toInt }
  | Installed {t : Receiver} {nonce : List UInt8} {c' : CryptState}
      (hcall : t.crypt.setDecryptNonce nonce = .ok c') :
      Step t (.SetDecryptNonce nonce) { t with crypt := c', advance := 0 }

-- How far the low byte of a datagram lies behind that of `decrypt_nonce`.
def behind (c : CryptState) (datagram : List UInt8) : Nat :=
  (c.decryptNonce.asU8 - datagram.headD 0).toNat

-- A datagram that verifies and was sealed, less than 30 behind, under the nonce that was
-- installed last or one before it: it was in flight when the nonce was installed.
def Stale (t : Receiver) : ReceiverCall → Prop
  | .Decrypt _ _ datagram =>
      t.crypt.Verifies datagram ∧ behind t.crypt datagram < LATE_WINDOW ∧
        t.advance ≤ behind t.crypt datagram
  | .SetDecryptNonce _ => False

-- A step that takes no stale datagram.
def InTime (t : Receiver) (call : ReceiverCall) (t' : Receiver) : Prop :=
  t.Step call t' ∧ ¬t.Stale call

-- Since the nonce was installed, at a position `start.top`, the positions accepted lie above
-- it; what is lost is what was lost before and the positions left out since.
structure Inv (t : Receiver) (start : Window UInt8) (positions : List Nat) (base : Int) :
    Prop where
  big : LATE_WINDOW ≤ start.top
  nonce : t.crypt.decryptNonce = nonceAt (start.top + t.advance)
  run : Window.Run SLOTS LATE_WINDOW pageOf start positions
    (t.crypt.window (start.top + t.advance))
  above : ∀ n ∈ positions, start.top < n
  base_nonneg : 0 ≤ base
  lost : t.lost + positions.length = base + t.advance
  counter : (t.crypt.lost.toNat : Int) = t.lost % 2 ^ 32

def Sound (t : Receiver) : Prop := ∃ start positions base, Inv t start positions base

variable {t t' : Receiver} {call : ReceiverCall} {start : Window UInt8} {positions : List Nat}
  {base : Int}

theorem Inv.lost_nonneg (h : Inv t start positions base) : 0 ≤ t.lost := by
  have hcard : (Window.missing start.top (start.top + t.advance) positions).card +
      positions.length = start.top + t.advance - start.top :=
    h.run.card_missing (by decide) h.above
  have hbase := h.base_nonneg
  have hlost := h.lost
  omega

theorem toNat_toUInt32 (x : Int32) : (x.toUInt32.toNat : Int) = x.toInt % 2 ^ 32 := by
  have hlt := x.toBitVec.isLt
  change (x.toBitVec.toNat : Int) = x.toBitVec.toInt % 2 ^ 32
  rw [BitVec.toInt_eq_toNat_cond]
  split_ifs <;> omega

theorem counter_add {counter : UInt32} {sum : Int} (lost : Int32)
    (h : (counter.toNat : Int) = sum % 2 ^ 32) :
    ((counter + lost.toUInt32).toNat : Int) = (sum + lost.toInt) % 2 ^ 32 := by
  have hlost := toNat_toUInt32 lost
  rw [UInt32.toNat_add]
  omega

theorem behind_late {c : CryptState} {datagram : List UInt8} {top n : Nat}
    (htop : c.decryptNonce = nonceAt top) (hbyte : datagram.headD 0 = UInt8.ofNat n)
    (hle : n ≤ top) (hnear : top < n + LATE_WINDOW) : behind c datagram = top - n := by
  unfold LATE_WINDOW at hnear
  rw [behind, htop, nonceAt_asU8, hbyte, byte_sub_toNat]
  omega

-- A nonce that is installed starts a new account.
theorem inv_installed {c : CryptState} {top : Nat} {lost : Int} (hbig : LATE_WINDOW ≤ top)
    (hnonce : c.decryptNonce = nonceAt top) (hlost : 0 ≤ lost)
    (hcounter : (c.lost.toNat : Int) = lost % 2 ^ 32) :
    Inv ⟨c, 0, lost⟩ (c.window top) [] lost where
  big := hbig
  nonce := hnonce
  run := .nil _
  above := by simp
  base_nonneg := hlost
  lost := by simp
  counter := hcounter

-- One more round leaves room for late positions below any nonce.
theorem nonceAt_round (x : Block) : x = nonceAt (x.toNat + 2 ^ 128) := by
  apply BitVec.eq_of_toNat_eq
  rw [nonceAt, BitVec.toNat_ofNat]
  have := x.isLt
  omega

theorem Inv.step (h : Inv t start positions base) (hstep : t.Step call t')
    (hfresh : ¬t.Stale call) : Sound t' := by
  cases hstep with
  | @Refused dst now datagram c' packet hcall hrefused =>
      rw [CryptState.unchanged_of_refused hcall fun nonce late lost plain ha =>
        hrefused ⟨nonce, late, lost, plain, ha⟩]
      exact ⟨start, positions, base, h⟩
  | @Accepted dst now datagram c' packet nonce late lost plain hcall ha =>
      have hbig : LATE_WINDOW ≤ start.top + t.advance := h.big.trans (Nat.le_add_right _ _)
      have hlost := h.lost
      rw [ha.next hcall]
      obtain ⟨n, hbyte, rfl, ⟨rfl, rfl, hlt, hnear, hnext⟩ | ⟨rfl, rfl, hle, hnear, hnext⟩⟩ :=
        ha.step now h.nonce hbig
      · have hdiff : (nonceAt n - t.crypt.decryptNonce).toNat = n - (start.top + t.advance) := by
          rw [h.nonce, nonceAt, nonceAt, BitVec.toNat_sub, BitVec.toNat_ofNat, BitVec.toNat_ofNat]
          omega
        have hn : start.top + (t.advance + (n - (start.top + t.advance))) = n := by omega
        have hgap : (Int32.ofNat (n - (start.top + t.advance) - 1)).toInt =
            ((n - (start.top + t.advance) - 1 : Nat) : Int) :=
          Int32.toInt_ofNat_of_lt (by omega)
        refine ⟨start, n :: positions, base, h.big, ?_, ?_, ?_, h.base_nonneg, ?_,
          counter_add _ h.counter⟩
        · simp only [Bool.false_eq_true, if_false, hdiff, hn]
          rfl
        · simp only [Bool.false_eq_true, if_false, hdiff, hn]
          exact h.run.cons hnext
        · simp only [List.mem_cons, forall_eq_or_imp]
          exact ⟨by omega, h.above⟩
        · simp only [Bool.false_eq_true, if_false, hdiff, hgap, List.length_cons]
          omega
      · have hbehind := behind_late h.nonce hbyte hle hnear
        -- the datagram is not stale, so its position is above the start
        have hstart : start.top < n := by
          by_contra hnot
          refine hfresh ⟨⟨_, _, _, _, ha⟩, ?_, ?_⟩
          · rw [hbehind]
            omega
          · rw [hbehind]
            omega
        refine ⟨start, n :: positions, base, h.big, h.nonce, h.run.cons hnext, ?_,
          h.base_nonneg, ?_, counter_add _ h.counter⟩
        · simp only [List.mem_cons, forall_eq_or_imp]
          exact ⟨hstart, h.above⟩
        · have hminus : (-1 : Int32).toInt = -1 := by decide
          simp only [if_true, hminus, List.length_cons]
          omega
  | @Installed nonce c' hcall =>
      simp only [CryptState.setDecryptNonce, Exec.bind_eq_ok] at hcall
      obtain ⟨bytes, -, hc⟩ := hcall
      cases hc
      refine ⟨_, _, _, inv_installed ?_ (nonceAt_round (Block.fromLeBytes bytes)) h.lost_nonneg
        h.counter⟩
      unfold LATE_WINDOW
      omega

-- A receiver right after a reset.
def ofFresh (c : CryptState) : Receiver := ⟨c, 0, 0⟩

theorem sound_ofFresh {c : CryptState} (h : c.Fresh) : Sound (ofFresh c) := by
  have hcounter : (c.lost.toNat : Int) = 0 % 2 ^ 32 := by
    rw [h.counters.2.2]
    rfl
  refine ⟨_, _, _, inv_installed ?_ h.decryptNonce le_rfl hcounter⟩
  unfold LATE_WINDOW
  omega

-- As long as no stale datagram is accepted, the exact sum is not negative, and the counter
-- is that sum.
theorem lost_never_negative {c : CryptState} (hfresh : c.Fresh) {calls : List ReceiverCall}
    (hrun : Run InTime (ofFresh c) calls t) :
    0 ≤ t.lost ∧ (t.crypt.lost.toNat : Int) = t.lost % 2 ^ 32 := by
  have hsound : Sound t := by
    refine hrun.invariant (I := Sound) (P := fun _ => True) ?_ (fun _ _ => trivial)
      (sound_ofFresh hfresh)
    rintro s l s' - ⟨start, positions, base, h⟩ ⟨hstep, hnot⟩
    exact h.step hstep hnot
  obtain ⟨start, positions, base, h⟩ := hsound
  exact ⟨h.lost_nonneg, h.counter⟩

theorem Step.of_tryDatagram (t : Receiver) (dst : VoicePacketDst) (now : Instant)
    (datagram : List UInt8) (nonce : Block) (late : Bool) (lost : Int32)
    (htry : t.crypt.tryDatagram datagram = some (nonce, late, lost)) :
    Step t (.Decrypt dst now datagram)
      { crypt := t.crypt.accept now (datagram.headD 0) nonce late lost
        advance := if late then t.advance
          else t.advance + (nonce - t.crypt.decryptNonce).toNat
        lost := t.lost + lost.toInt } := by
  obtain ⟨plain, ha⟩ := CryptState.Accepts.of_tryDatagram htry
  obtain ⟨packet, -, hcall⟩ := ha.decrypt dst now
  exact .Accepted hcall ha

open DecryptRun (sampleReceiver sampleReceiver_fresh samplePing201 samplePing258)

-- The receiver of the samples, right after it has been told a nonce.
def sampleResynced (nonce : List UInt8) : Receiver :=
  ofFresh { sampleReceiver with decryptNonce := Block.fromLeBytes nonce, resync := 1 }

theorem sampleResynced_step {nonce : List UInt8} (h : nonce.length = 16) :
    Step (ofFresh sampleReceiver) (.SetDecryptNonce nonce) (sampleResynced nonce) := by
  refine .Installed ?_
  rw [CryptState.setDecryptNonce, tryInto_eq h]
  rfl

-- The nonces 2 ^ 127 + 101 and 2 ^ 127 + 259 as a client sends them.
def sampleNonce101 : List UInt8 := [101, 0, 0, 0, 0, 0, 0, 0, 0, 0, 0, 0, 0, 0, 0, 128]
def sampleNonce259 : List UInt8 := [3, 1, 0, 0, 0, 0, 0, 0, 0, 0, 0, 0, 0, 0, 0, 128]

-- A resync past a hundred packets, then one that is a hundred ahead.
theorem lost_never_negative_resynced :
    ∃ t, Run InTime (ofFresh sampleReceiver)
        [.SetDecryptNonce sampleNonce101, .Decrypt .ServerBound 1 samplePing201] t ∧
      0 ≤ t.lost ∧ t.crypt.lost = 99 := by
  have hahead := Step.of_tryDatagram (sampleResynced sampleNonce101) .ServerBound 1 samplePing201
    (nonceAt (2 ^ 127 + 201)) false 99 (by decide +kernel)
  have hinTime : ¬(sampleResynced sampleNonce101).Stale
      (.Decrypt .ServerBound 1 samplePing201) := by
    rintro ⟨-, hnear, -⟩
    exact absurd hnear (by decide +kernel)
  have hinstall : InTime (ofFresh sampleReceiver) (.SetDecryptNonce sampleNonce101)
      (sampleResynced sampleNonce101) := ⟨sampleResynced_step rfl, id⟩
  have hrun := Run.Step hinstall (.single ⟨hahead, hinTime⟩)
  exact ⟨_, hrun, (lost_never_negative sampleReceiver_fresh hrun).1, rfl⟩

-- The client has sealed a packet under 2 ^ 127 + 258 and one more, and tells the server its
-- nonce. The first of the two packets comes after that and is taken for one counted as lost.
theorem lost_wraps :
    ∃ t, Run Step (ofFresh sampleReceiver)
        [.SetDecryptNonce sampleNonce259, .Decrypt .ServerBound 1 samplePing258] t ∧
      t.lost = -1 ∧ t.crypt.lost = 4294967295 := by
  have hlate := Step.of_tryDatagram (sampleResynced sampleNonce259) .ServerBound 1 samplePing258
    (nonceAt (2 ^ 127 + 258)) true (-1) (by decide +kernel)
  exact ⟨_, .Step (sampleResynced_step rfl) (.single hlate), rfl, rfl⟩

end Receiver

end Mumble
