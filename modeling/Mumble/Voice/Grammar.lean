import Mumble.Voice.Theorems
import Mumble.Lib.Grammar

/-!
The language of voice packets, and that `decode_voice_packet` reads exactly this language.
-/

namespace Mumble

open Mumble.Lib

-- How many bytes follow the leading byte of a varint, for the forms without a complement.
def varintMore (b0 : UInt8) : Nat :=
  if b0 < 0x80 then 0
  else if b0 < 0xC0 then 1
  else if b0 < 0xE0 then 2
  else if b0 < 0xF0 then 3
  else if b0 < 0xF4 then 4
  else 8

-- The highest bits of the value, where the leading byte has room for some.
def varintHigh (b0 : UInt8) : Nat :=
  if b0 < 0x80 then b0.toNat
  else if b0 < 0xC0 then b0.toNat - 0x80
  else if b0 < 0xE0 then b0.toNat - 0xC0
  else if b0 < 0xF0 then b0.toNat - 0xE0
  else 0

-- A value in big-endian bytes, the complement of another varint, or of a number below four.
inductive Varint : Grammar UInt8 UInt64 where
  | Plain {b0 : UInt8} {bytes : List UInt8} (hlead : b0 < 0xF8)
      (hmore : bytes.length = varintMore b0) :
      Varint (b0 :: bytes) (UInt64.ofNat (bigEndian (varintHigh b0) bytes))
  | Complement {b0 : UInt8} {bytes : List UInt8} {value : UInt64} (hlead : 0xF8 ≤ b0 ∧ b0 < 0xFC)
      (hvalue : Varint bytes value) : Varint (b0 :: bytes) (~~~value)
  | Small {b0 : UInt8} (hlead : 0xFC ≤ b0) : Varint [b0] (~~~UInt64.ofNat (b0.toNat - 0xFC))

-- The frames of a CELT or Speex payload. All but the last have the high bit of their
-- length byte set.
inductive Frames : Grammar UInt8 (List (List UInt8)) where
  | Last {frame : List UInt8} (hlength : frame.length < 128) :
      Frames (UInt8.ofNat frame.length :: frame) [frame]
  | More {frame bytes : List UInt8} {frames : List (List UInt8)} (hlength : frame.length < 128)
      (hrest : Frames bytes frames) :
      Frames ((0x80 ||| UInt8.ofNat frame.length) :: (frame ++ bytes)) (frame :: frames)

-- The payload of an audio packet, for the kind in the packet's header.
inductive Payload : UInt8 → Grammar UInt8 VoicePacketPayload where
  | CeltAlpha {bytes : List UInt8} {frames : List (List UInt8)} (hframes : Frames bytes frames) :
      Payload 0 bytes (.CeltAlpha frames)
  | Speex {bytes : List UInt8} {frames : List (List UInt8)} (hframes : Frames bytes frames) :
      Payload 2 bytes (.Speex frames)
  | CeltBeta {bytes : List UInt8} {frames : List (List UInt8)} (hframes : Frames bytes frames) :
      Payload 3 bytes (.CeltBeta frames)
  | Opus {bytes frame : List UInt8} {header : UInt64} (hheader : Varint bytes header)
      (hlength : frame.length = (header &&& ~~~0x2000).toNat) :
      Payload 4 (bytes ++ frame) (.Opus frame (decide (header &&& 0x2000 = 0x2000)))

-- Only a client-bound packet has a session.
inductive Session : (dst : VoicePacketDst) → Grammar UInt8 dst.SessionId where
  | ServerBound : Session .ServerBound [] ()
  | ClientBound {bytes : List UInt8} {value : UInt64} (hvalue : Varint bytes value) :
      Session .ClientBound bytes value.toUInt32

-- A packet and the bytes it is read from. What comes after the timestamp of a ping is
-- ignored; what comes after the payload of an audio packet is the position.
inductive VoiceGrammar (dst : VoicePacketDst) : Grammar UInt8 (VoicePacket dst) where
  | Ping {header : UInt8} {bytes tail : List UInt8} {timestamp : UInt64} (hkind : header >>> 5 = 1)
      (htimestamp : Varint bytes timestamp) :
      VoiceGrammar dst (header :: (bytes ++ tail)) (.Ping timestamp)
  | Audio {header : UInt8} {session seq body tail : List UInt8} {sessionId : dst.SessionId}
      {seqNum : UInt64} {payload : VoicePacketPayload} {positionInfo : Option (List UInt8)}
      (hsession : Session dst session sessionId) (hseq : Varint seq seqNum)
      (hbody : Payload (header >>> 5) body payload)
      (hposition : positionInfo = if tail = [] then none else some tail) :
      VoiceGrammar dst (header :: (session ++ (seq ++ (body ++ tail))))
        (.Audio (header &&& 0b11111) sessionId seqNum payload positionInfo)

-- The tests of `read_varint` on the leading byte, as ranges.
set_option synthInstance.maxSize 1024 in
theorem varint_lead (b0 : UInt8) :
    (b0 &&& 0b1111_1100 = 0b1111_1000 ↔ 0xF8 ≤ b0 ∧ b0 < 0xFC) ∧
    (b0 &&& 0b1111_1100 = 0b1111_1100 ↔ 0xFC ≤ b0) ∧
    (b0 &&& 0b1000_0000 = 0 ↔ b0 < 0x80) ∧
    (0x80 ≤ b0 → (b0 &&& 0b0100_0000 = 0 ↔ b0 < 0xC0)) ∧
    (0xC0 ≤ b0 → (b0 &&& 0b0010_0000 = 0 ↔ b0 < 0xE0)) ∧
    (0xE0 ≤ b0 → (b0 &&& 0b0001_0000 = 0 ↔ b0 < 0xF0)) ∧
    (0xF0 ≤ b0 → b0 < 0xF8 → (b0 &&& 0b0000_0100 = 0 ↔ b0 < 0xF4)) := by
  revert b0
  decide +kernel

set_option synthInstance.maxSize 1024 in
theorem varint_high (b0 : UInt8) :
    (b0 < 0x80 → (b0 &&& 0b0111_1111).toNat = b0.toNat) ∧
    (0x80 ≤ b0 → b0 < 0xC0 → (b0 &&& 0b0011_1111).toNat = b0.toNat - 0x80) ∧
    (0xC0 ≤ b0 → b0 < 0xE0 → (b0 &&& 0b0001_1111).toNat = b0.toNat - 0xC0) ∧
    (0xE0 ≤ b0 → b0 < 0xF0 → (b0 &&& 0x0F).toNat = b0.toNat - 0xE0) ∧
    (0xFC ≤ b0 → (b0 &&& 0x03).toNat = b0.toNat - 0xFC) := by
  revert b0
  decide +kernel

-- The forms without a complement: the reader takes as many bytes as the leading byte asks
-- for, or fails if there are not so many.
theorem readVarint_plain (position : Nat) {b0 : UInt8} (h : b0 < 0xF8) (rest : List UInt8) :
    readVarint position (b0 :: rest) =
      if varintMore b0 ≤ rest.length then
        .ok (UInt64.ofNat (bigEndian (varintHigh b0) (rest.take (varintMore b0))),
          ⟨position + 1 + varintMore b0, rest.drop (varintMore b0)⟩)
      else .error .UnexpectedEof := by
  obtain ⟨hcomplement, hsmall, hone, htwo, hthree, hfour, hfive⟩ := varint_lead b0
  obtain ⟨hhigh1, hhigh2, hhigh3, hhigh4, -⟩ := varint_high b0
  have hnot : ¬b0 &&& 0b1111_1100 = 0b1111_1000 := by
    rw [hcomplement]
    intro hlead
    exact absurd h (UInt8.not_lt.mpr hlead.1)
  have hnot' : ¬b0 &&& 0b1111_1100 = 0b1111_1100 := by
    rw [hsmall]
    intro hlead
    exact absurd h (UInt8.not_lt.mpr (UInt8.le_trans (by decide) hlead))
  have hjoin (b : UInt8) (bytes : List UInt8) (hbytes : bytes.length ≤ 7) (c : Cursor) :=
    congrArg (fun value => (Except.ok (value, c) : Except IoError (UInt64 × Cursor)))
      (joinBytes_eq b hbytes)
  rw [readVarint, if_neg hnot, if_neg hnot']
  unfold varintMore varintHigh
  by_cases h1 : b0 < 0x80
  · rw [if_pos (hone.mpr h1)]
    simp only [if_pos h1, Nat.zero_le, if_true, List.take_zero, List.drop_zero, bigEndian,
      List.foldl_nil, Nat.add_zero, ← hhigh1 h1, UInt64.ofNat_uInt8ToNat]
  have hge1 : 0x80 ≤ b0 := UInt8.not_lt.mp h1
  rw [if_neg (fun hb => h1 (hone.mp hb))]
  by_cases h2 : b0 < 0xC0
  · simp only [if_neg h1, if_pos h2, (htwo hge1).mpr h2, if_true, ← hhigh2 hge1 h2]
    cases rest with
    | nil => rfl
    | cons b1 rest => exact hjoin _ [b1] (by simp) _
  have hge2 : 0xC0 ≤ b0 := UInt8.not_lt.mp h2
  have htwo' : ¬b0 &&& 0b0100_0000 = 0 := fun hb => h2 ((htwo hge1).mp hb)
  by_cases h3 : b0 < 0xE0
  · simp only [if_neg h1, if_neg h2, if_pos h3, htwo', (hthree hge2).mpr h3, if_true, if_false,
      ← hhigh3 hge2 h3]
    rcases rest with _ | ⟨b1, _ | ⟨b2, rest⟩⟩
    · rfl
    · rfl
    · exact hjoin _ [b1, b2] (by simp) _
  have hge3 : 0xE0 ≤ b0 := UInt8.not_lt.mp h3
  have hthree' : ¬b0 &&& 0b0010_0000 = 0 := fun hb => h3 ((hthree hge2).mp hb)
  by_cases h4 : b0 < 0xF0
  · simp only [if_neg h1, if_neg h2, if_neg h3, if_pos h4, htwo', hthree', (hfour hge3).mpr h4,
      if_true, if_false, ← hhigh4 hge3 h4]
    rcases rest with _ | ⟨b1, _ | ⟨b2, _ | ⟨b3, rest⟩⟩⟩
    · rfl
    · rfl
    · rfl
    · exact hjoin _ [b1, b2, b3] (by simp) _
  have hge4 : 0xF0 ≤ b0 := UInt8.not_lt.mp h4
  have hfour' : ¬b0 &&& 0b0001_0000 = 0 := fun hb => h4 ((hfour hge3).mp hb)
  have hzero (b1 : UInt8) (bytes : List UInt8) :
      bigEndian 0 (b1 :: bytes) = bigEndian b1.toNat bytes := by simp [bigEndian]
  by_cases h5 : b0 < 0xF4
  · simp only [if_neg h1, if_neg h2, if_neg h3, if_neg h4, if_pos h5, htwo', hthree', hfour',
      (hfive hge4 h).mpr h5, if_true, if_false]
    rcases rest with _ | ⟨b1, _ | ⟨b2, _ | ⟨b3, _ | ⟨b4, rest⟩⟩⟩⟩
    · rfl
    · rfl
    · rfl
    · rfl
    · rw [if_pos (by simp), List.take_succ_cons, hzero]
      exact hjoin b1 [b2, b3, b4] (by simp) _
  have hfive' : ¬b0 &&& 0b0000_0100 = 0 := fun hb => h5 ((hfive hge4 h).mp hb)
  simp only [if_neg h1, if_neg h2, if_neg h3, if_neg h4, if_neg h5, htwo', hthree', hfour', hfive',
    if_false]
  rcases rest with _ | ⟨b1, _ | ⟨b2, _ | ⟨b3, _ | ⟨b4, _ | ⟨b5, _ | ⟨b6, _ | ⟨b7, _ | ⟨b8, rest⟩⟩⟩⟩⟩⟩⟩⟩
  · rfl
  · rfl
  · rfl
  · rfl
  · rfl
  · rfl
  · rfl
  · rfl
  · rw [if_pos (by simp), List.take_succ_cons, hzero]
    exact hjoin b1 [b2, b3, b4, b5, b6, b7, b8] (by simp) _

theorem readVarint_of_varint {word : List UInt8} {value : UInt64} (h : Varint word value)
    (position : Nat) (rest : List UInt8) :
    ∃ c, readVarint position (word ++ rest) = .ok (value, c) ∧ c.rest = rest := by
  induction h generalizing position with
  | @Plain b0 bytes hlead hmore =>
      refine ⟨⟨position + 1 + varintMore b0, rest⟩, ?_, rfl⟩
      rw [List.cons_append, readVarint_plain position hlead, if_pos (by simp [hmore]), ← hmore,
        List.take_left, List.drop_left]
  | @Complement b0 bytes value hlead hvalue ih =>
      obtain ⟨c, hread, hrest⟩ := ih (position + 1)
      refine ⟨c, ?_, hrest⟩
      rw [List.cons_append, readVarint, if_pos ((varint_lead b0).1.mpr hlead), hread]
  | @Small b0 hlead =>
      refine ⟨⟨position + 1, rest⟩, ?_, rfl⟩
      have hnot : ¬b0 &&& 0b1111_1100 = 0b1111_1000 := by
        rw [(varint_lead b0).1]
        intro h
        exact absurd h.2 (UInt8.not_lt.mpr hlead)
      have hhigh := (varint_high b0).2.2.2.2 hlead
      rw [List.singleton_append, readVarint, if_neg hnot, if_pos ((varint_lead b0).2.1.mpr hlead),
        ← hhigh, UInt64.ofNat_uInt8ToNat]

theorem varint_of_readVarint {input : List UInt8} {position : Nat} {value : UInt64} {c : Cursor}
    (h : readVarint position input = .ok (value, c)) :
    ∃ word, Varint word value ∧ input = word ++ c.rest := by
  induction input generalizing position value c with
  | nil => cases h
  | cons b0 input ih =>
      by_cases hplain : b0 < 0xF8
      · rw [readVarint_plain position hplain] at h
        split_ifs at h with hlen
        cases h
        exact ⟨_, .Plain hplain (List.length_take_of_le hlen), by simp⟩
      have hge : 0xF8 ≤ b0 := UInt8.not_lt.mp hplain
      rw [readVarint] at h
      by_cases hcomplement : b0 < 0xFC
      · rw [if_pos ((varint_lead b0).1.mpr ⟨hge, hcomplement⟩)] at h
        cases hread : readVarint (position + 1) input with
        | error e =>
            rw [hread] at h
            cases h
        | ok read =>
            rw [hread] at h
            cases h
            obtain ⟨word, hword, hinput⟩ := ih hread
            exact ⟨b0 :: word, .Complement ⟨hge, hcomplement⟩ hword, by rw [hinput]; rfl⟩
      · have hsmall : 0xFC ≤ b0 := UInt8.not_lt.mp hcomplement
        have hnot : ¬b0 &&& 0b1111_1100 = 0b1111_1000 := by
          rw [(varint_lead b0).1]
          exact fun hlead => hcomplement hlead.2
        rw [if_neg hnot, if_pos ((varint_lead b0).2.1.mpr hsmall)] at h
        cases h
        refine ⟨[b0], ?_, rfl⟩
        have hvalue : ~~~UInt64.ofNat (b0.toNat - 0xFC) = ~~~(b0 &&& 0x03).toUInt64 := by
          rw [← (varint_high b0).2.2.2.2 hsmall, UInt64.ofNat_uInt8ToNat]
        exact hvalue ▸ .Small hsmall

theorem Varint.reads (position : Nat) : Grammar.Reads Varint fun input value rest =>
    ∃ c, readVarint position input = .ok (value, c) ∧ c.rest = rest := by
  intro input value rest
  constructor
  · rintro ⟨c, hread, rfl⟩
    exact varint_of_readVarint hread
  · rintro ⟨word, hword, rfl⟩
    exact readVarint_of_varint hword position rest

theorem Session.reads (dst : VoicePacketDst) (position : Nat) :
    (Session dst).Reads fun input sessionId rest =>
      ∃ c, dst.readSessionId ⟨position, input⟩ = .ok (sessionId, c) ∧ c.rest = rest := by
  intro input sessionId rest
  cases dst with
  | ServerBound =>
      constructor
      · rintro ⟨c, hread, rfl⟩
        cases hread
        exact ⟨[], .ServerBound, rfl⟩
      · rintro ⟨word, hword, rfl⟩
        cases hword
        exact ⟨_, rfl, rfl⟩
  | ClientBound =>
      constructor
      · rintro ⟨c, hread, rfl⟩
        simp only [VoicePacketDst.readSessionId] at hread
        cases hvarint : Cursor.readVarint ⟨position, input⟩ with
        | error e =>
            rw [hvarint] at hread
            cases hread
        | ok read =>
            rw [hvarint] at hread
            cases hread
            obtain ⟨word, hword, hinput⟩ := varint_of_readVarint hvarint
            exact ⟨word, .ClientBound hword, hinput⟩
      · rintro ⟨word, hword, rfl⟩
        cases hword with
        | ClientBound hvalue =>
            obtain ⟨c, hread, hrest⟩ := readVarint_of_varint hvalue position rest
            refine ⟨c, ?_, hrest⟩
            simp only [VoicePacketDst.readSessionId, Cursor.readVarint, hread]
            rfl

-- The header byte of a frame, from its two parts.
theorem frame_header (header : UInt8) :
    (header &&& 0x80 ≠ 0x80 → header = UInt8.ofNat (header &&& ~~~0x80).toNat) ∧
    (header &&& 0x80 = 0x80 → header = 0x80 ||| UInt8.ofNat (header &&& ~~~0x80).toNat) := by
  revert header
  decide +kernel

theorem masked_length_lt (header : UInt8) : (header &&& ~~~0x80).toNat < 128 := by
  revert header
  decide +kernel

theorem readFrame_eq_ok {buf frame rest : List UInt8} {header : UInt8}
    (h : readFrame buf = .ok (.ok (header, frame, rest))) :
    buf = header :: (frame ++ rest) ∧ frame.length = (header &&& ~~~0x80).toNat := by
  cases buf with
  | nil => cases h
  | cons first buf =>
      rw [readFrame_cons] at h
      split_ifs at h with hshort
      · cases h
      · cases h
        exact ⟨by rw [List.take_append_drop], List.length_take_of_le (Nat.le_of_not_lt hshort)⟩

theorem readFrames_of_frames {word : List UInt8} {frames : List (List UInt8)}
    (h : Frames word frames) (acc : List (List UInt8)) (rest : List UInt8) :
    readFrames acc (word ++ rest) = .ok (.ok (acc ++ frames, rest)) := by
  induction h generalizing acc with
  | @Last frame hlength =>
      obtain ⟨hx, hxlen⟩ := ofNat_length_lt hlength
      obtain ⟨hmask, hbit⟩ := last_header _ hx
      rw [UInt8.zero_or] at hmask hbit
      have hread := readFrame_put (UInt8.ofNat frame.length) frame rest (by rw [hmask, hxlen])
      rw [List.cons_append, readFrames_step acc hread, if_pos hbit]
  | @More frame bytes frames hlength hrest ih =>
      obtain ⟨hx, hxlen⟩ := ofNat_length_lt hlength
      obtain ⟨hmask, hbit⟩ := continued_header _ hx
      have hread := readFrame_put (0x80 ||| UInt8.ofNat frame.length) frame (bytes ++ rest)
        (by rw [hmask, hxlen])
      rw [List.cons_append, List.append_assoc, readFrames_step acc hread, if_neg (by simp [hbit]),
        ih (acc ++ [frame]), List.append_assoc, List.singleton_append]

theorem frames_of_readFrames {acc found : List (List UInt8)} {input rest : List UInt8}
    (h : readFrames acc input = .ok (.ok (found, rest))) :
    ∃ word frames, Frames word frames ∧ found = acc ++ frames ∧ input = word ++ rest := by
  fun_induction readFrames acc input with
  | case1 => cases h
  | case2 => cases h
  | case3 acc input header frame next hread hlast =>
      cases h
      obtain ⟨hinput, hlength⟩ := readFrame_eq_ok hread
      have hheader := (frame_header header).1 hlast
      rw [← hlength] at hheader
      have hlt : frame.length < 128 := hlength ▸ masked_length_lt header
      exact ⟨_, _, .Last hlt, rfl, by rw [← hheader, hinput, List.cons_append]⟩
  | case4 acc input header frame next hread hlast ih =>
      obtain ⟨word, frames, hword, hfound, hnext⟩ := ih h
      obtain ⟨hinput, hlength⟩ := readFrame_eq_ok hread
      have hheader := (frame_header header).2 (not_not.mp hlast)
      rw [← hlength] at hheader
      have hlt : frame.length < 128 := hlength ▸ masked_length_lt header
      refine ⟨_, _, .More hlt hword, by rw [hfound, List.append_assoc]; rfl, ?_⟩
      rw [← hheader, hinput, hnext, List.cons_append, List.append_assoc]

theorem Frames.reads : Grammar.Reads Frames fun input frames rest =>
    readFrames [] input = .ok (.ok (frames, rest)) := by
  intro input frames rest
  constructor
  · intro h
    obtain ⟨word, frames', hword, rfl, hinput⟩ := frames_of_readFrames h
    exact ⟨word, hword, hinput⟩
  · rintro ⟨word, hword, rfl⟩
    exact readFrames_of_frames hword [] rest

-- The branches of the decoder after the sequence number.
theorem decodePayload_iff {dst : VoicePacketDst} {kind target : UInt8} {sessionId : dst.SessionId}
    {seqNum : UInt64} {cur : Cursor} {buf : List UInt8} (hcur : cur.On buf)
    {packet : VoicePacket dst} :
    decodePayload kind target sessionId seqNum cur buf = .ok (.ok packet) ↔
      ∃ word payload tail, Payload kind word payload ∧ cur.rest = word ++ tail ∧
        packet = finishAudio target sessionId seqNum payload tail := by
  constructor
  · intro h
    unfold decodePayload at h
    by_cases hframes : kind = 0 ∨ kind = 2 ∨ kind = 3
    · obtain ⟨read, hread⟩ := readFrames_returns [] cur.rest
      rw [if_pos hframes, hcur.advance, Exec.ok_bind, hread, Exec.ok_bind] at h
      cases read with
      | error e => cases h
      | ok read =>
          obtain ⟨frames, tail⟩ := read
          obtain ⟨word, hword, hrest⟩ := (Frames.reads _ _ _).mp hread
          rcases hframes with rfl | rfl | rfl
          · cases h
            exact ⟨word, _, tail, .CeltAlpha hword, hrest, rfl⟩
          · cases h
            exact ⟨word, _, tail, .Speex hword, hrest, rfl⟩
          · cases h
            exact ⟨word, _, tail, .CeltBeta hword, hrest, rfl⟩
    rw [if_neg hframes] at h
    by_cases hopus : kind = 4
    · subst hopus
      rw [if_pos rfl] at h
      cases hv : cur.readVarint with
      | error e =>
          rw [hv] at h
          cases h
      | ok read =>
          obtain ⟨header, next⟩ := read
          obtain ⟨word, hword, hrest⟩ := varint_of_readVarint hv
          simp only [hv, (hcur.readVarint hv).advance, Exec.ok_bind] at h
          split_ifs at h with hshort
          · cases h
          · rw [splitTo_eq (by omega), Exec.ok_bind] at h
            cases h
            have hlength := List.length_take_of_le (Nat.le_of_not_lt hshort)
            refine ⟨_, _, _, .Opus hword hlength, ?_, rfl⟩
            rw [hrest, List.append_assoc, List.take_append_drop]
    · rw [if_neg hopus] at h
      cases h
  · rintro ⟨word, payload, tail, hpayload, hrest, rfl⟩
    unfold decodePayload
    cases hpayload with
    | CeltAlpha hframes | Speex hframes | CeltBeta hframes =>
        rw [if_pos (by decide), hcur.advance, Exec.ok_bind, hrest,
          readFrames_of_frames hframes [] tail]
        rfl
    | @Opus bytes frame header hheader hlength =>
        rw [List.append_assoc] at hrest
        obtain ⟨next, hread, hnext⟩ := readVarint_of_varint hheader cur.position (frame ++ tail)
        rw [← hrest] at hread
        have hadvance := (hcur.readVarint hread).advance
        rw [hnext] at hadvance
        rw [if_neg (by decide), if_pos rfl]
        simp only [Cursor.readVarint, hread, hadvance, Exec.ok_bind, ← hlength]
        rw [if_neg (by simp), splitTo_eq (by simp), Exec.ok_bind, List.take_left, List.drop_left]
        rfl

-- The decoder accepts exactly the language, and returns the packet that the word stands
-- for: its frames and its position are the parts of the input that the word has for them.
theorem decodeVoicePacket_iff {dst : VoicePacketDst} {bytes : List UInt8}
    {packet : VoicePacket dst} :
    decodeVoicePacket dst bytes = .ok (.ok packet) ↔ VoiceGrammar dst bytes packet := by
  constructor
  · intro h
    cases bytes with
    | nil => cases h
    | cons header rest =>
        have hcur : Cursor.On (header :: rest) ⟨1, rest⟩ :=
          (Cursor.on_new (header :: rest)).cons rfl
        simp only [decodeVoicePacket, Cursor.new, Cursor.readU8, Nat.zero_add] at h
        split_ifs at h with hping
        · cases hv : Cursor.readVarint ⟨1, rest⟩ with
          | error e =>
              rw [hv] at h
              cases h
          | ok read =>
              obtain ⟨timestamp, next⟩ := read
              obtain ⟨word, hword, hrest⟩ := (Varint.reads 1 rest _ _).mp ⟨next, hv, rfl⟩
              simp only [hv, advance_eq (Nat.le_refl _)] at h
              cases h
              rw [hrest]
              exact .Ping hping hword
        · cases hsession : dst.readSessionId ⟨1, rest⟩ with
          | error e =>
              rw [hsession] at h
              cases h
          | ok read =>
              obtain ⟨sessionId, next⟩ := read
              have hnext := hcur.readSessionId hsession
              obtain ⟨session, hword, hrest⟩ :=
                (Session.reads dst 1 _ _ _).mp ⟨next, hsession, rfl⟩
              simp only [hsession] at h
              cases hv : next.readVarint with
              | error e =>
                  simp only [hv] at h
                  cases h
              | ok read =>
                  obtain ⟨seqNum, last⟩ := read
                  obtain ⟨seq, hseq, hseqRest⟩ := varint_of_readVarint hv
                  simp only [hv] at h
                  obtain ⟨body, payload, tail, hbody, hbodyRest, rfl⟩ :=
                    (decodePayload_iff (hnext.readVarint hv)).mp h
                  rw [hrest, hseqRest, hbodyRest]
                  exact .Audio hword hseq hbody (by simp only [List.isEmpty_iff])
  · intro h
    cases h with
    | @Ping header bytes tail timestamp hkind htimestamp =>
        obtain ⟨c, hread, -⟩ := readVarint_of_varint htimestamp 1 tail
        simp only [decodeVoicePacket, Cursor.new, Cursor.readU8, Nat.zero_add, if_pos hkind,
          Cursor.readVarint, hread, advance_eq (Nat.le_refl _)]
        rfl
    | @Audio header session seq body tail sessionId seqNum payload positionInfo hsession hseq hbody
        hposition =>
        subst hposition
        have hcur : Cursor.On (header :: (session ++ (seq ++ (body ++ tail))))
            ⟨1, session ++ (seq ++ (body ++ tail))⟩ := (Cursor.on_new _).cons rfl
        obtain ⟨next, hread, hnext⟩ := (Session.reads dst 1 _ _ (seq ++ (body ++ tail))).mpr
          ⟨session, hsession, rfl⟩
        obtain ⟨last, hv, hlast⟩ := readVarint_of_varint hseq next.position (body ++ tail)
        rw [← hnext] at hv
        have hon := (hcur.readSessionId hread).readVarint hv
        have hone : ¬header >>> 5 = 1 := by
          intro hkind
          rw [hkind] at hbody
          cases hbody
        simp only [decodeVoicePacket, Cursor.new, Cursor.readU8, Nat.zero_add, if_neg hone, hread,
          Cursor.readVarint, hv]
        rw [(decodePayload_iff hon).mpr ⟨body, payload, tail, hbody, hlast, rfl⟩]
        simp only [finishAudio, List.isEmpty_iff]

-- Every byte string gets an answer, and it is `Ok` for the words of the language alone.
theorem decoder_accepts_grammar (dst : VoicePacketDst) (bytes : List UInt8) :
    (decodeVoicePacket dst bytes).Returns ∧
      ((∃ packet, decodeVoicePacket dst bytes = .ok (.ok packet)) ↔
        ∃ packet, VoiceGrammar dst bytes packet) ∧
      ∀ packet, decodeVoicePacket dst bytes = .ok (.ok packet) ↔
        VoiceGrammar dst bytes packet := by
  refine ⟨decodeVoicePacket_returns dst bytes, ?_, fun packet => decodeVoicePacket_iff⟩
  exact exists_congr fun packet => decodeVoicePacket_iff

end Mumble
