import Mumble.Voice
import Mumble.Varint.Theorems

namespace Mumble

open Mumble.Lib

namespace Cursor

-- The cursor reads the buffer: what it has not read is the buffer from its
-- position on.
def On (buf : List UInt8) (c : Cursor) : Prop :=
  c.position ≤ buf.length ∧ c.rest = buf.drop c.position

theorem on_new (buf : List UInt8) : (Cursor.new buf).On buf := ⟨Nat.zero_le _, rfl⟩

theorem On.cons {buf rest : List UInt8} {c : Cursor} {b : UInt8} (h : c.On buf)
    (hr : c.rest = b :: rest) : On buf ⟨c.position + 1, rest⟩ := by
  obtain ⟨hp, he⟩ := h
  rw [hr] at he
  have hlen := congrArg List.length he
  simp only [List.length_cons, List.length_drop] at hlen
  refine ⟨by simp only; omega, ?_⟩
  have ht := congrArg List.tail he
  simpa using ht

theorem readU8_eq_ok {c c' : Cursor} {b : UInt8} (h : c.readU8 = .ok (b, c')) :
    c.rest = b :: c'.rest ∧ c'.position = c.position + 1 := by
  unfold readU8 at h
  split at h
  · cases h
  · rename_i first rest hr
    cases h
    exact ⟨hr, rfl⟩

theorem On.readU8 {buf : List UInt8} {c c' : Cursor} {b : UInt8} (hc : c.On buf)
    (h : c.readU8 = .ok (b, c')) : c'.On buf := by
  obtain ⟨hr, hp⟩ := readU8_eq_ok h
  have := hc.cons hr
  rwa [← hp] at this

theorem On.readU8_bind {buf : List UInt8} {c : Cursor} {α : Type}
    {f : UInt8 × Cursor → Except IoError α} {r : α} (hc : c.On buf)
    (h : (c.readU8 >>= f) = .ok r) : ∃ b c', c'.On buf ∧ f (b, c') = .ok r := by
  cases hb : c.readU8 with
  | error e => rw [hb] at h; cases h
  | ok read => rw [hb] at h; exact ⟨read.1, read.2, hc.readU8 hb, h⟩

theorem On.advance {buf : List UInt8} {c : Cursor} (hc : c.On buf) :
    Lib.advance buf c.position = .ok c.rest := by
  rw [advance_eq hc.1, hc.2]

end Cursor

theorem readVarint_on {buf rest : List UInt8} {position : Nat} {value : UInt64} {c : Cursor}
    (hp : Cursor.On buf ⟨position, rest⟩) (h : readVarint position rest = .ok (value, c)) :
    c.On buf := by
  induction rest generalizing position value c with
  | nil => cases h
  | cons b0 rest ih =>
      have hp1 : Cursor.On buf ⟨position + 1, rest⟩ := hp.cons rfl
      unfold readVarint at h
      split_ifs at h
      · cases hr : readVarint (position + 1) rest with
        | error e => rw [hr] at h; cases h
        | ok r =>
            rw [hr] at h
            cases h
            exact ih hp1 hr
      · cases h
        exact hp1
      · cases h
        exact hp1
      · obtain ⟨b1, c1, hc1, h⟩ := hp1.readU8_bind h
        cases h
        exact hc1
      · obtain ⟨b1, c1, hc1, h⟩ := hp1.readU8_bind h
        obtain ⟨b2, c2, hc2, h⟩ := hc1.readU8_bind h
        cases h
        exact hc2
      · obtain ⟨b1, c1, hc1, h⟩ := hp1.readU8_bind h
        obtain ⟨b2, c2, hc2, h⟩ := hc1.readU8_bind h
        obtain ⟨b3, c3, hc3, h⟩ := hc2.readU8_bind h
        cases h
        exact hc3
      · obtain ⟨b1, c1, hc1, h⟩ := hp1.readU8_bind h
        obtain ⟨b2, c2, hc2, h⟩ := hc1.readU8_bind h
        obtain ⟨b3, c3, hc3, h⟩ := hc2.readU8_bind h
        obtain ⟨b4, c4, hc4, h⟩ := hc3.readU8_bind h
        cases h
        exact hc4
      · obtain ⟨b1, c1, hc1, h⟩ := hp1.readU8_bind h
        obtain ⟨b2, c2, hc2, h⟩ := hc1.readU8_bind h
        obtain ⟨b3, c3, hc3, h⟩ := hc2.readU8_bind h
        obtain ⟨b4, c4, hc4, h⟩ := hc3.readU8_bind h
        obtain ⟨b5, c5, hc5, h⟩ := hc4.readU8_bind h
        obtain ⟨b6, c6, hc6, h⟩ := hc5.readU8_bind h
        obtain ⟨b7, c7, hc7, h⟩ := hc6.readU8_bind h
        obtain ⟨b8, c8, hc8, h⟩ := hc7.readU8_bind h
        cases h
        exact hc8

theorem Cursor.On.readVarint {buf : List UInt8} {c c' : Cursor} {value : UInt64} (hc : c.On buf)
    (h : c.readVarint = .ok (value, c')) : c'.On buf := readVarint_on hc h

theorem Cursor.On.readSessionId {dst : VoicePacketDst} {buf : List UInt8} {c c' : Cursor}
    {sessionId : dst.SessionId} (hc : c.On buf)
    (h : dst.readSessionId c = .ok (sessionId, c')) : c'.On buf := by
  cases dst with
  | ServerBound =>
      cases h
      exact hc
  | ClientBound =>
      simp only [VoicePacketDst.readSessionId] at h
      cases hr : c.readVarint with
      | error e => rw [hr] at h; cases h
      | ok read =>
          rw [hr] at h
          cases h
          exact hc.readVarint hr

-- The decoder reaches no panic site.

theorem readFrame_returns (buf : List UInt8) : (readFrame buf).Returns := by
  cases buf with
  | nil => exact ⟨_, readFrame_nil⟩
  | cons header buf =>
      rw [readFrame_cons]
      split_ifs <;> exact Exec.returns_ok _

theorem readFrames_returns (frames : List (List UInt8)) (buf : List UInt8) :
    (readFrames frames buf).Returns := by
  fun_induction readFrames frames buf with
  | case1 frames buf p h =>
      obtain ⟨r, hr⟩ := readFrame_returns buf
      rw [hr] at h
      cases h
  | case2 => exact Exec.returns_ok _
  | case3 => exact Exec.returns_ok _
  | case4 frames buf header frame rest h hc ih => exact ih

theorem decodePayload_returns {dst : VoicePacketDst} (kind target : UInt8)
    (sessionId : dst.SessionId) (seqNum : UInt64) {cur : Cursor} {buf : List UInt8}
    (hc : cur.On buf) : (decodePayload kind target sessionId seqNum cur buf).Returns := by
  unfold decodePayload
  by_cases hframes : kind = 0 ∨ kind = 2 ∨ kind = 3
  · obtain ⟨r, hr⟩ := readFrames_returns [] cur.rest
    rw [if_pos hframes, hc.advance, Exec.ok_bind, hr, Exec.ok_bind]
    cases r with
    | error e => exact Exec.returns_ok _
    | ok read =>
        rcases hframes with rfl | rfl | rfl <;> exact Exec.returns_ok _
  rw [if_neg hframes]
  by_cases hopus : kind = 4
  · rw [if_pos hopus]
    cases hv : cur.readVarint with
    | error e => exact Exec.returns_ok _
    | ok read =>
        simp only [(hc.readVarint hv).advance, Exec.ok_bind]
        split_ifs with hlen
        · exact Exec.returns_ok _
        · rw [splitTo_eq (by omega)]
          exact Exec.returns_ok _
  · rw [if_neg hopus]
    exact Exec.returns_ok _

theorem decodeVoicePacket_returns (dst : VoicePacketDst) (buf : List UInt8) :
    (decodeVoicePacket dst buf).Returns := by
  unfold decodeVoicePacket
  cases hh : (Cursor.new buf).readU8 with
  | error e => exact Exec.returns_ok _
  | ok header =>
      have hc := (Cursor.on_new buf).readU8 hh
      simp only
      split_ifs with hping
      · cases hv : header.2.readVarint with
        | error e => exact Exec.returns_ok _
        | ok read =>
            simp only [advance_eq (Nat.le_refl buf.length)]
            exact Exec.returns_ok _
      · cases hs : dst.readSessionId header.2 with
        | error e => exact Exec.returns_ok _
        | ok session =>
            have hc' := hc.readSessionId hs
            cases hv : session.2.readVarint with
            | error e =>
                simp only [hv]
                exact Exec.returns_ok _
            | ok read =>
                simp only [hv]
                exact decodePayload_returns _ _ _ _ (hc'.readVarint hv)

-- The decoder fails on input that ends too early and on input it cannot read. The other
-- errors are those of `decrypt`.
def DecryptError.OfDecoder : DecryptError → Prop
  | .Io _ => True
  | .Eof => True
  | _ => False

theorem readFrames_error {frames : List (List UInt8)} {buf : List UInt8} {e : DecryptError}
    (h : readFrames frames buf = .ok (.error e)) : e = .Eof := by
  fun_induction readFrames frames buf with
  | case1 => cases h
  | case2 frames buf e' hread =>
      cases h
      cases buf with
      | nil =>
          cases hread
          rfl
      | cons header buf =>
          rw [readFrame_cons] at hread
          split_ifs at hread <;> cases hread
          rfl
  | case3 => cases h
  | case4 frames buf header frame rest hread hlast ih => exact ih h

theorem decodePayload_error {dst : VoicePacketDst} {kind target : UInt8} {sessionId : dst.SessionId}
    {seqNum : UInt64} {cur : Cursor} {buf : List UInt8} (hcur : cur.On buf) {e : DecryptError}
    (h : decodePayload kind target sessionId seqNum cur buf = .ok (.error e)) : e.OfDecoder := by
  unfold decodePayload at h
  by_cases hframes : kind = 0 ∨ kind = 2 ∨ kind = 3
  · obtain ⟨read, hread⟩ := readFrames_returns [] cur.rest
    rw [if_pos hframes, hcur.advance, Exec.ok_bind, hread, Exec.ok_bind] at h
    cases read with
    | error e' =>
        cases h
        rw [readFrames_error hread]
        trivial
    | ok read => rcases hframes with rfl | rfl | rfl <;> cases h
  rw [if_neg hframes] at h
  by_cases hopus : kind = 4
  · rw [if_pos hopus] at h
    cases hv : cur.readVarint with
    | error io =>
        rw [hv] at h
        cases h
        trivial
    | ok read =>
        simp only [hv, (hcur.readVarint hv).advance, Exec.ok_bind] at h
        split_ifs at h with hshort
        · cases h
          trivial
        · rw [splitTo_eq (by omega)] at h
          cases h
  · rw [if_neg hopus] at h
    cases h
    trivial

theorem decodeVoicePacket_error {dst : VoicePacketDst} {buf : List UInt8} {e : DecryptError}
    (h : decodeVoicePacket dst buf = .ok (.error e)) : e.OfDecoder := by
  unfold decodeVoicePacket at h
  cases hheader : (Cursor.new buf).readU8 with
  | error io =>
      rw [hheader] at h
      cases h
      trivial
  | ok read =>
      have hcur := (Cursor.on_new buf).readU8 hheader
      simp only [hheader] at h
      split_ifs at h
      · cases hv : read.2.readVarint with
        | error io =>
            simp only [hv] at h
            cases h
            trivial
        | ok read =>
            simp only [hv, advance_eq (Nat.le_refl _)] at h
            cases h
      · cases hsession : dst.readSessionId read.2 with
        | error io =>
            simp only [hsession] at h
            cases h
            trivial
        | ok session =>
            have hnext := hcur.readSessionId hsession
            simp only [hsession] at h
            cases hv : session.2.readVarint with
            | error io =>
                simp only [hv] at h
                cases h
                trivial
            | ok last =>
                simp only [hv] at h
                exact decodePayload_error (hnext.readVarint hv) h

-- The packets that survive encoding. A frame's length is the `usize` of a
-- buffer, so it is below 2 ^ 64.

def VoicePacketPayload.WellFormed : VoicePacketPayload → Prop
  | .CeltAlpha frames => frames ≠ [] ∧ ∀ frame ∈ frames, frame.length < 128
  | .CeltBeta frames => frames ≠ [] ∧ ∀ frame ∈ frames, frame.length < 128
  | .Speex frames => frames ≠ [] ∧ ∀ frame ∈ frames, frame.length < 128
  | .Opus frame _ => frame.length &&& 0x2000 = 0 ∧ frame.length < 2 ^ 64

def VoicePacket.WellFormed {dst : VoicePacketDst} : VoicePacket dst → Prop
  | .Ping _ => True
  | .Audio target _ _ payload positionInfo =>
      target < 32 ∧ payload.WellFormed ∧ positionInfo ≠ some []

instance (payload : VoicePacketPayload) : Decidable payload.WellFormed := by
  cases payload <;> unfold VoicePacketPayload.WellFormed <;> infer_instance

instance {dst : VoicePacketDst} (packet : VoicePacket dst) : Decidable packet.WellFormed := by
  cases packet <;> unfold VoicePacket.WellFormed <;> infer_instance

theorem putFrames_append (dst : List UInt8) (frames : List (List UInt8)) :
    putFrames dst frames = dst ++ putFrames [] frames := by
  induction frames generalizing dst with
  | nil => simp [putFrames]
  | cons frame rest ih =>
      simp only [putFrames]
      rw [ih, ih ([] ++ _ ++ frame)]
      simp only [List.nil_append, List.append_assoc]

theorem last_header (x : UInt8) (h : x < 0x80) :
    ((0 : UInt8) ||| x) &&& ~~~0x80 = x ∧ ((0 : UInt8) ||| x) &&& 0x80 ≠ 0x80 := by
  revert x
  decide +kernel

theorem continued_header (x : UInt8) (h : x < 0x80) :
    ((0x80 : UInt8) ||| x) &&& ~~~0x80 = x ∧ ((0x80 : UInt8) ||| x) &&& 0x80 = 0x80 := by
  revert x
  decide +kernel

theorem ofNat_length_lt {len : Nat} (h : len < 128) :
    UInt8.ofNat len < 0x80 ∧ (UInt8.ofNat len).toNat = len := by
  have htoNat : (UInt8.ofNat len).toNat = len := by
    rw [UInt8.toNat_ofNat']
    omega
  exact ⟨by rw [UInt8.lt_iff_toNat_lt, htoNat]; exact h, htoNat⟩

theorem readFrame_put (header : UInt8) (frame tail : List UInt8)
    (h : (header &&& ~~~0x80).toNat = frame.length) :
    readFrame (header :: (frame ++ tail)) = .ok (.ok (header, frame, tail)) := by
  rw [readFrame_cons, h, if_neg (by simp), List.take_left, List.drop_left]

theorem readFrames_step {buf rest frame : List UInt8} {header : UInt8}
    (acc : List (List UInt8)) (h : readFrame buf = .ok (.ok (header, frame, rest))) :
    readFrames acc buf =
      if header &&& 0x80 ≠ 0x80 then .ok (.ok (acc ++ [frame], rest))
      else readFrames (acc ++ [frame]) rest := by
  rw [readFrames]
  split
  · rename_i hr
    rw [h] at hr
    cases hr
  · rename_i hr
    rw [h] at hr
    cases hr
  · rename_i hr
    rw [h] at hr
    cases hr
    rfl

theorem readFrames_putFrames (acc frames : List (List UInt8)) (tail : List UInt8)
    (hne : frames ≠ []) (hlen : ∀ frame ∈ frames, frame.length < 128) :
    readFrames acc (putFrames [] frames ++ tail) = .ok (.ok (acc ++ frames, tail)) := by
  induction frames generalizing acc with
  | nil => exact absurd rfl hne
  | cons frame rest ih =>
      obtain ⟨hx, hxlen⟩ := ofNat_length_lt (hlen frame (by simp))
      cases rest with
      | nil =>
          obtain ⟨hmask, hbit⟩ := last_header _ hx
          have hread := readFrame_put ((0 : UInt8) ||| UInt8.ofNat frame.length) frame tail
            (by rw [hmask, hxlen])
          rw [putFrames, List.isEmpty_nil, if_pos rfl, putFrames, List.nil_append,
            List.append_assoc, List.singleton_append, readFrames_step acc hread, if_pos hbit]
      | cons next more =>
          obtain ⟨hmask, hbit⟩ := continued_header _ hx
          have hread := readFrame_put ((0x80 : UInt8) ||| UInt8.ofNat frame.length) frame
            (putFrames [] (next :: more) ++ tail) (by rw [hmask, hxlen])
          have hput : putFrames [] (frame :: next :: more) ++ tail =
              ((0x80 : UInt8) ||| UInt8.ofNat frame.length) ::
                (frame ++ (putFrames [] (next :: more) ++ tail)) := by
            rw [putFrames, putFrames_append]
            simp
          rw [hput, readFrames_step acc hread, if_neg (by simp [hbit]),
            ih (acc ++ [frame]) (by simp) (fun f hf => hlen f (List.mem_cons_of_mem _ hf)),
            List.append_assoc, List.singleton_append]

-- Reading back the fields that precede the payload.

theorem readSessionId_writeSessionId (dst : VoicePacketDst) (sessionId : dst.SessionId)
    (position : Nat) (tail : List UInt8) :
    ∃ c : Cursor, dst.readSessionId ⟨position, dst.writeSessionId [] sessionId ++ tail⟩ =
      .ok (sessionId, c) ∧ c.rest = tail := by
  cases dst with
  | ServerBound => exact ⟨⟨position, tail⟩, rfl, rfl⟩
  | ClientBound =>
      have hid : sessionId.toUInt64.toUInt32 = sessionId := by simp
      refine ⟨⟨position + (writeVarint sessionId.toUInt64).length, tail⟩, ?_, rfl⟩
      simp only [VoicePacketDst.readSessionId, VoicePacketDst.writeSessionId, putVarint,
        List.nil_append, Cursor.readVarint, readVarint_writeVarint]
      exact congrArg (fun id => Except.ok (id, _)) hid

theorem writeSessionId_append (dst : VoicePacketDst) (buf : List UInt8) (sessionId : dst.SessionId) :
    dst.writeSessionId buf sessionId = buf ++ dst.writeSessionId [] sessionId := by
  cases dst with
  | ServerBound => simp [VoicePacketDst.writeSessionId]
  | ClientBound => simp [VoicePacketDst.writeSessionId, putVarint]

theorem putPayload_append (dst : List UInt8) (payload : VoicePacketPayload) :
    putPayload dst payload = dst ++ putPayload [] payload := by
  cases payload with
  | CeltAlpha frames => exact putFrames_append dst frames
  | CeltBeta frames => exact putFrames_append dst frames
  | Speex frames => exact putFrames_append dst frames
  | Opus frame terminationBit => simp [putPayload, putVarint]

-- The bytes of an audio packet: header byte, session id, sequence number,
-- payload, position.
theorem encodeVoicePacket_audio {dir : VoicePacketDst} (target : UInt8) (sessionId : dir.SessionId)
    (seqNum : UInt64) (payload : VoicePacketPayload) (positionInfo : Option (List UInt8))
    (dst : List UInt8) :
    encodeVoicePacket (.Audio target sessionId seqNum payload positionInfo) dst =
      dst ++ (payload.kind <<< 5 ||| target &&& 0b11111) ::
        (dir.writeSessionId [] sessionId ++ (writeVarint seqNum ++
          (putPayload [] payload ++ positionInfo.getD []))) := by
  simp only [encodeVoicePacket]
  rw [writeSessionId_append, putPayload_append]
  cases positionInfo <;> simp [putVarint]

theorem header_split (kind : UInt8) (hk : kind < 8) (target : UInt8) (ht : target < 32) :
    (kind <<< 5 ||| target &&& 0b11111) >>> 5 = kind ∧
    (kind <<< 5 ||| target &&& 0b11111) &&& 0b11111 = target := by
  revert kind target
  decide +kernel

theorem kind_lt (payload : VoicePacketPayload) : payload.kind < 8 ∧ payload.kind ≠ 1 := by
  cases payload <;> exact ⟨by simp [VoicePacketPayload.kind], by simp [VoicePacketPayload.kind]⟩

theorem finishAudio_getD {dst : VoicePacketDst} (target : UInt8) (sessionId : dst.SessionId)
    (seqNum : UInt64) (payload : VoicePacketPayload) (positionInfo : Option (List UInt8))
    (h : positionInfo ≠ some []) :
    finishAudio target sessionId seqNum payload (positionInfo.getD []) =
      .Audio target sessionId seqNum payload positionInfo := by
  cases positionInfo with
  | none => rfl
  | some bytes =>
      have hne : bytes ≠ [] := fun hb => h (by rw [hb])
      simp [finishAudio, hne]

-- The terminator bit and the length share one varint.

theorem or_and_mask (x mask : UInt64) : (mask ||| x) &&& mask = mask := by
  apply UInt64.toBitVec_inj.mp
  apply BitVec.eq_of_getLsbD_eq
  intro i hi
  cases hm : mask.toBitVec.getLsbD i <;> simp [hm]

theorem getLsbD_of_and_eq_zero {x mask : UInt64} (h : x &&& mask = 0) (i : Nat) :
    (x.toBitVec.getLsbD i && mask.toBitVec.getLsbD i) = false := by
  have hb := congrArg (fun v : UInt64 => v.toBitVec.getLsbD i) h
  simpa using hb

theorem or_and_not_mask {x mask : UInt64} (h : x &&& mask = 0) : (mask ||| x) &&& ~~~mask = x := by
  apply UInt64.toBitVec_inj.mp
  apply BitVec.eq_of_getLsbD_eq
  intro i hi
  have hb := getLsbD_of_and_eq_zero h i
  cases hm : mask.toBitVec.getLsbD i <;> simp_all

theorem and_not_mask {x mask : UInt64} (h : x &&& mask = 0) : x &&& ~~~mask = x := by
  apply UInt64.toBitVec_inj.mp
  apply BitVec.eq_of_getLsbD_eq
  intro i hi
  have hb := getLsbD_of_and_eq_zero h i
  cases hm : mask.toBitVec.getLsbD i <;> simp_all

theorem opus_header (len : Nat) (terminationBit : Bool) (hlen : len < 2 ^ 64)
    (hbit : len &&& 0x2000 = 0) :
    decide (((if terminationBit then 0x2000 else 0) ||| UInt64.ofNat len) &&& 0x2000 = 0x2000) =
      terminationBit ∧
    (((if terminationBit then 0x2000 else 0) ||| UInt64.ofNat len) &&& ~~~0x2000).toNat = len := by
  have htoNat : (UInt64.ofNat len).toNat = len := by
    rw [UInt64.toNat_ofNat']
    exact Nat.mod_eq_of_lt hlen
  have hand : UInt64.ofNat len &&& 0x2000 = 0 := by
    apply UInt64.toNat_inj.mp
    rw [UInt64.toNat_and, htoNat]
    exact hbit
  cases terminationBit with
  | true =>
      simp only [if_true]
      rw [or_and_mask, or_and_not_mask hand, htoNat]
      exact ⟨rfl, rfl⟩
  | false =>
      simp only [Bool.false_eq_true, if_false, UInt64.zero_or]
      rw [and_not_mask hand, hand, htoNat]
      exact ⟨rfl, rfl⟩

theorem decodePayload_putPayload {dst : VoicePacketDst} (target : UInt8)
    (sessionId : dst.SessionId) (seqNum : UInt64) (payload : VoicePacketPayload)
    {cur : Cursor} {buf tail : List UInt8} (hc : cur.On buf)
    (hrest : cur.rest = putPayload [] payload ++ tail) (hw : payload.WellFormed) :
    decodePayload payload.kind target sessionId seqNum cur buf =
      .ok (.ok (finishAudio target sessionId seqNum payload tail)) := by
  unfold decodePayload
  cases payload with
  | CeltAlpha frames =>
      rw [if_pos (by simp [VoicePacketPayload.kind]), hc.advance, Exec.ok_bind, hrest, putPayload,
        readFrames_putFrames [] frames tail hw.1 hw.2]
      rfl
  | CeltBeta frames =>
      rw [if_pos (by simp [VoicePacketPayload.kind]), hc.advance, Exec.ok_bind, hrest, putPayload,
        readFrames_putFrames [] frames tail hw.1 hw.2]
      rfl
  | Speex frames =>
      rw [if_pos (by simp [VoicePacketPayload.kind]), hc.advance, Exec.ok_bind, hrest, putPayload,
        readFrames_putFrames [] frames tail hw.1 hw.2]
      rfl
  | Opus frame terminationBit =>
      obtain ⟨hterm, hlen⟩ := opus_header frame.length terminationBit hw.2 hw.1
      have hv := readVarint_writeVarint cur.position
        ((if terminationBit then 0x2000 else 0) ||| UInt64.ofNat frame.length) (frame ++ tail)
      have hrest' : cur.rest = writeVarint ((if terminationBit then 0x2000 else 0) |||
          UInt64.ofNat frame.length) ++ (frame ++ tail) := by
        simpa [putPayload, putVarint] using hrest
      rw [← hrest'] at hv
      have hon := hc.readVarint hv
      rw [if_neg (by simp [VoicePacketPayload.kind]), if_pos (by simp [VoicePacketPayload.kind])]
      simp only [Cursor.readVarint, hv, hon.advance, Exec.ok_bind, hterm, hlen]
      rw [if_neg (by simp), splitTo_eq (by simp), Exec.ok_bind, List.take_left, List.drop_left]
      rfl

-- Every well-formed packet is decoded from its own encoding.
theorem decodeVoicePacket_encodeVoicePacket {dst : VoicePacketDst} (packet : VoicePacket dst)
    (hw : packet.WellFormed) :
    decodeVoicePacket dst (encodeVoicePacket packet []) = .ok (.ok packet) := by
  cases packet with
  | Ping timestamp =>
      have hv := readVarint_writeVarint 1 timestamp []
      rw [List.append_nil] at hv
      simp only [encodeVoicePacket, putVarint, decodeVoicePacket, Cursor.new, Cursor.readU8,
        List.nil_append, List.singleton_append]
      rw [if_pos (by decide)]
      simp only [Cursor.readVarint, Nat.zero_add, hv, advance_eq (Nat.le_refl _)]
      rfl
  | Audio target sessionId seqNum payload positionInfo =>
      obtain ⟨ht, hp, hpos⟩ := hw
      obtain ⟨hkind, hone⟩ := kind_lt payload
      obtain ⟨hk, htarget⟩ := header_split payload.kind hkind target ht
      rw [encodeVoicePacket_audio, List.nil_append]
      generalize hrest : putPayload [] payload ++ positionInfo.getD [] = rest
      generalize hbuf : (payload.kind <<< 5 ||| target &&& 0b11111) ::
        (dst.writeSessionId [] sessionId ++ (writeVarint seqNum ++ rest)) = buf
      have hu : (Cursor.new buf).readU8 = .ok (payload.kind <<< 5 ||| target &&& 0b11111,
          ⟨1, dst.writeSessionId [] sessionId ++ (writeVarint seqNum ++ rest)⟩) := by
        rw [← hbuf]
        rfl
      obtain ⟨c, hs, hcrest⟩ := readSessionId_writeSessionId dst sessionId 1
        (writeVarint seqNum ++ rest)
      have hv : c.readVarint =
          .ok (seqNum, ⟨c.position + (writeVarint seqNum).length, rest⟩) := by
        rw [Cursor.readVarint, hcrest, readVarint_writeVarint]
      have hon := (((Cursor.on_new buf).readU8 hu).readSessionId hs).readVarint hv
      simp only [decodeVoicePacket, hu, hk, htarget, hone, if_false, hs, hv]
      rw [decodePayload_putPayload target sessionId seqNum payload hon hrest.symm hp,
        finishAudio_getD _ _ _ _ _ hpos]

end Mumble
