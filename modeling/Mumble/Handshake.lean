import Mumble.Framing
import Mumble.Lib.Grammar

/-!
The first messages of a client (`expected_message`): which frames of a stream are taken for
the message that the server waits for.
-/

namespace Mumble

open Mumble.Lib

variable {α : Type}

-- `T::parse_from_bytes` is `parse`.
def getMessage (parse : List UInt8 → Option α) (stream : List UInt8) :
    Except MumbleError α × List UInt8 :=
  match readU32 stream with
  | (.error e, stream) => (.error e, stream)
  | (.ok size, stream) =>
      match readExact size.toNat stream with
      | (.error e, stream) => (.error e, stream)
      | (.ok data, stream) =>
          match parse data with
          | none => (.error .Parse, stream)
          | some message => (.ok message, stream)

-- The loop of `expected_message`. The number is how many turns are left: 10 - `retry`.
def skipTunnels (kind : MessageKind) :
    Nat → UInt16 → List UInt8 → Except MumbleError Unit × List UInt8
  | 0, _, stream => (.ok (), stream)
  | left + 1, messageKind, stream =>
      if messageKind = kind.toU16 then (.ok (), stream)
      else
        match readU32 stream with
        | (.error e, stream) => (.error e, stream)
        | (.ok size, stream) =>
            match readExact size.toNat stream with
            | (.error e, stream) => (.error e, stream)
            | (.ok _, stream) =>
                if messageKind = MessageKind.UDPTunnel.toU16 then
                  match readU16 stream with
                  | (.error e, stream) => (.error e, stream)
                  | (.ok messageKind, stream) => skipTunnels kind left messageKind stream
                else (.error (.UnexpectedMessageKind messageKind), stream)

def expectedMessage (parse : List UInt8 → Option α) (kind : MessageKind) (stream : List UInt8) :
    Except MumbleError α × List UInt8 :=
  match readU16 stream with
  | (.error e, stream) => (.error e, stream)
  | (.ok messageKind, stream) =>
      match skipTunnels kind 10 messageKind stream with
      | (.error e, stream) => (.error e, stream)
      -- whichever way the loop has ended
      | (.ok (), stream) => getMessage parse stream

-- What the server waits for: at most ten voice packets in the tunnel, then one frame of the
-- expected kind.
inductive Expected (parse : List UInt8 → Option α) (kind : MessageKind) : Grammar UInt8 α where
  | Found {tunnels : List Frame} {f : Frame} {message : α}
      (htunnels : ∀ t ∈ tunnels, t.kind = MessageKind.UDPTunnel.toU16)
      (hcount : tunnels.length ≤ 10) (hkind : f.kind = kind.toU16)
      (hparse : parse f.payload = some message) :
      Expected parse kind (Frame.wire tunnels ++ f.bytes) message

-- The reads, as what they take from the stream.

theorem readExact_eq_ok {size : Nat} {stream bytes rest : List UInt8} :
    readExact size stream = (.ok bytes, rest) ↔ bytes.length = size ∧ stream = bytes ++ rest := by
  constructor
  · intro h
    unfold readExact at h
    split_ifs at h with hsize
    · cases h
      exact ⟨List.length_take_of_le hsize, (List.take_append_drop size stream).symm⟩
    · cases h
  · rintro ⟨hlength, rfl⟩
    exact readExact_append bytes rest hlength

theorem readExact_map_eq_ok {β : Type} {size : Nat} {f : List UInt8 → β}
    {stream rest : List UInt8} {x : β} :
    ((readExact size stream).1.map f, (readExact size stream).2) = (.ok x, rest) ↔
      ∃ bytes, bytes.length = size ∧ stream = bytes ++ rest ∧ f bytes = x := by
  cases hread : readExact size stream with
  | mk read left =>
      cases read with
      | error e =>
          constructor
          · intro h
            cases h
          · rintro ⟨bytes, hlength, rfl, -⟩
            rw [readExact_append bytes rest hlength] at hread
            cases hread
      | ok bytes =>
          obtain ⟨hlength, rfl⟩ := readExact_eq_ok.mp hread
          constructor
          · intro h
            cases h
            exact ⟨bytes, hlength, rfl, rfl⟩
          · rintro ⟨bytes', hlength', hsame, rfl⟩
            obtain ⟨rfl, rfl⟩ := List.append_inj hsame (hlength.trans hlength'.symm)
            rfl

theorem readU16_eq_ok {stream rest : List UInt8} {kind : UInt16} :
    readU16 stream = (.ok kind, rest) ↔ stream = toBeBytes (n := 2) kind.toBitVec ++ rest := by
  constructor
  · intro h
    obtain ⟨bytes, hlength, rfl, rfl⟩ := readExact_map_eq_ok.mp h
    rw [UInt16.toBitVec_ofBitVec, toBeBytes_fromBeBytes bytes hlength]
  · rintro rfl
    exact readU16_append kind rest

theorem readU32_eq_ok {stream rest : List UInt8} {size : UInt32} :
    readU32 stream = (.ok size, rest) ↔ stream = toBeBytes (n := 4) size.toBitVec ++ rest := by
  constructor
  · intro h
    obtain ⟨bytes, hlength, rfl, rfl⟩ := readExact_map_eq_ok.mp h
    rw [UInt32.toBitVec_ofBitVec, toBeBytes_fromBeBytes bytes hlength]
  · rintro rfl
    exact readU32_append size.toBitVec rest

namespace Frame

def size (f : Frame) : UInt32 := UInt32.ofBitVec (BitVec.ofNat 32 f.payload.length)

-- What comes after the kind.
def body (f : Frame) : List UInt8 := toBeBytes (n := 4) f.size.toBitVec ++ f.payload

theorem toNat_size (f : Frame) : f.size.toNat = f.payload.length := by
  have hfits := f.fits
  change f.payload.length % 2 ^ 32 = f.payload.length
  omega

theorem bytes_eq (f : Frame) : f.bytes = toBeBytes (n := 2) f.kind.toBitVec ++ f.body :=
  List.append_assoc ..

theorem wire_cons_append (f : Frame) (frames : List Frame) (rest : List UInt8) :
    wire (f :: frames) ++ rest =
      toBeBytes (n := 2) f.kind.toBitVec ++ (f.body ++ (wire frames ++ rest)) := by
  rw [wire, List.flatMap_cons, f.bytes_eq]
  simp only [List.append_assoc]
  rfl

theorem bytes_ne_nil (f : Frame) : f.bytes ≠ [] := by
  intro h
  have hlength := congrArg List.length h
  simp [bytes, frameBytes] at hlength

-- Kind and size have a fixed length, and the size says where the payload ends.
theorem prefixFree_bytes : PrefixFree bytes := by
  intro f g rest rest' h
  rw [bytes_eq, bytes_eq, List.append_assoc, List.append_assoc] at h
  obtain ⟨hkind, h⟩ := List.append_inj h (by simp only [length_toBeBytes])
  rw [body, body, List.append_assoc, List.append_assoc] at h
  obtain ⟨hsize, h⟩ := List.append_inj h (by simp only [length_toBeBytes])
  have hkind' : f.kind = g.kind := by
    apply UInt16.eq_of_toBitVec_eq
    rw [← fromBeBytes_toBeBytes (n := 2) f.kind.toBitVec, hkind, fromBeBytes_toBeBytes]
  have hsize' : f.size = g.size := by
    apply UInt32.eq_of_toBitVec_eq
    rw [← fromBeBytes_toBeBytes (n := 4) f.size.toBitVec, hsize, fromBeBytes_toBeBytes]
  have hlength : f.payload.length = g.payload.length := by
    rw [← toNat_size, ← toNat_size, hsize']
  obtain ⟨hpayload, hrest⟩ := List.append_inj h hlength
  obtain ⟨kind, payload, fits⟩ := f
  obtain ⟨kind', payload', fits'⟩ := g
  cases hkind'
  cases hpayload
  exact ⟨rfl, hrest⟩

-- The two reads of a body.
theorem readU32_body (f : Frame) (rest : List UInt8) :
    readU32 (f.body ++ rest) = (.ok f.size, f.payload ++ rest) := by
  rw [readU32_eq_ok, body, List.append_assoc]

theorem readExact_payload (f : Frame) (rest : List UInt8) :
    readExact f.size.toNat (f.payload ++ rest) = (.ok f.payload, rest) :=
  readExact_append f.payload rest f.toNat_size.symm

-- Where both succeed, there is a body.
theorem exists_of_reads {size : UInt32} {stream middle data rest : List UInt8} (kind : UInt16)
    (hsize : readU32 stream = (.ok size, middle))
    (hdata : readExact size.toNat middle = (.ok data, rest)) :
    ∃ f : Frame, f.kind = kind ∧ f.payload = data ∧ stream = f.body ++ rest := by
  obtain ⟨hlength, rfl⟩ := readExact_eq_ok.mp hdata
  have hfits : data.length < 2 ^ 32 := hlength ▸ size.toNat_lt
  have hsame : (⟨kind, data, hfits⟩ : Frame).size = size := by
    apply UInt32.toNat_inj.mp
    rw [toNat_size, hlength]
  refine ⟨⟨kind, data, hfits⟩, rfl, rfl, ?_⟩
  rw [readU32_eq_ok.mp hsize, body, hsame, List.append_assoc]

end Frame

theorem getMessage_iff {parse : List UInt8 → Option α} {stream rest : List UInt8} {message : α}
    (kind : UInt16) :
    getMessage parse stream = (.ok message, rest) ↔
      ∃ f : Frame, f.kind = kind ∧ parse f.payload = some message ∧ stream = f.body ++ rest := by
  constructor
  · intro h
    unfold getMessage at h
    split at h
    · cases h
    · rename_i size middle hsize
      split at h
      · cases h
      · rename_i data left hdata
        obtain ⟨f, hkind, rfl, hstream⟩ := Frame.exists_of_reads kind hsize hdata
        split at h
        · cases h
        · rename_i found hparse
          cases h
          exact ⟨f, hkind, hparse, hstream⟩
  · rintro ⟨f, -, hparse, rfl⟩
    simp only [getMessage, f.readU32_body, f.readExact_payload, hparse]

-- Why the loop stops: at the expected kind, or because the turns are used up.
structure Stops (kind : MessageKind) (left : Nat) (tunnels : List Frame) (last : UInt16) :
    Prop where
  tunnel : ∀ t ∈ tunnels, t.kind = MessageKind.UDPTunnel.toU16
  other : ∀ t ∈ tunnels, t.kind ≠ kind.toU16
  stop : last = kind.toU16 ∧ tunnels.length ≤ left ∨ tunnels.length = left

theorem stops_of_skipTunnels {kind : MessageKind} {left : Nat} {messageKind : UInt16}
    {stream rest : List UInt8} (h : skipTunnels kind left messageKind stream = (.ok (), rest)) :
    ∃ tunnels last, Stops kind left tunnels last ∧
      toBeBytes (n := 2) messageKind.toBitVec ++ stream =
        Frame.wire tunnels ++ (toBeBytes (n := 2) last.toBitVec ++ rest) := by
  induction left generalizing messageKind stream with
  | zero =>
      cases h
      exact ⟨[], messageKind, ⟨by simp, by simp, .inr rfl⟩, rfl⟩
  | succ left ih =>
      rw [skipTunnels] at h
      by_cases hkind : messageKind = kind.toU16
      · rw [if_pos hkind] at h
        cases h
        exact ⟨[], messageKind, ⟨by simp, by simp, .inl ⟨hkind, Nat.zero_le _⟩⟩, rfl⟩
      · rw [if_neg hkind] at h
        split at h
        · cases h
        · rename_i size middle hsize
          split at h
          · cases h
          · rename_i data after hdata
            split_ifs at h with htunnel
            · split at h
              · cases h
              · rename_i next remaining hnext
                obtain ⟨f, rfl, -, hstream⟩ := Frame.exists_of_reads messageKind hsize hdata
                obtain ⟨tunnels, last, hstops, hrest⟩ := ih h
                refine ⟨f :: tunnels, last, ⟨?_, ?_, ?_⟩, ?_⟩
                · exact List.forall_mem_cons.mpr ⟨htunnel, hstops.tunnel⟩
                · exact List.forall_mem_cons.mpr ⟨hkind, hstops.other⟩
                · rw [List.length_cons]
                  exact hstops.stop.imp (And.imp_right Nat.succ_le_succ) (congrArg Nat.succ)
                · rw [Frame.wire_cons_append, ← hrest, hstream, readU16_eq_ok.mp hnext]
            · cases h

theorem starts_with_kind (tunnels : List Frame) (last : UInt16) (rest : List UInt8) :
    ∃ next stream, Frame.wire tunnels ++ (toBeBytes (n := 2) last.toBitVec ++ rest) =
      toBeBytes (n := 2) (UInt16.toBitVec next) ++ stream := by
  cases tunnels with
  | nil => exact ⟨last, rest, rfl⟩
  | cons f tunnels =>
      rw [Frame.wire_cons_append]
      exact ⟨f.kind, _, rfl⟩

theorem skipTunnels_of_stops {kind : MessageKind} {left : Nat} {tunnels : List Frame}
    {last messageKind : UInt16} {stream rest : List UInt8} (hstops : Stops kind left tunnels last)
    (h : Frame.wire tunnels ++ (toBeBytes (n := 2) last.toBitVec ++ rest) =
      toBeBytes (n := 2) messageKind.toBitVec ++ stream) :
    skipTunnels kind left messageKind stream = (.ok (), rest) := by
  have hread := readU16_append messageKind stream
  rw [← h] at hread
  induction tunnels generalizing left messageKind stream with
  | nil =>
      rw [Frame.wire, List.flatMap_nil, List.nil_append, readU16_append] at hread
      cases hread
      cases left with
      | zero => rfl
      | succ left =>
          rw [skipTunnels, if_pos]
          simpa using hstops.stop
  | cons f tunnels ih =>
      rw [Frame.wire_cons_append, readU16_append] at hread
      cases hread
      cases left with
      | zero => simpa using hstops.stop
      | succ left =>
          have hkind : f.kind ≠ kind.toU16 := hstops.other f (List.mem_cons_self ..)
          have htunnel : f.kind = MessageKind.UDPTunnel.toU16 :=
            hstops.tunnel f (List.mem_cons_self ..)
          have hrest : Stops kind left tunnels last := by
            refine ⟨(List.forall_mem_cons.mp hstops.tunnel).2,
              (List.forall_mem_cons.mp hstops.other).2, ?_⟩
            exact hstops.stop.imp (And.imp_right Nat.le_of_succ_le_succ) Nat.succ.inj
          obtain ⟨next, stream, hnext⟩ := starts_with_kind tunnels last rest
          have hnextRead := readU16_append next stream
          rw [← hnext] at hnextRead
          simp only [skipTunnels, if_neg hkind, f.readU32_body, f.readExact_payload, if_pos htunnel,
            hnextRead]
          exact ih hrest hnext hnextRead

-- What `expected_message` takes.
theorem expectedMessage_iff {parse : List UInt8 → Option α} {kind : MessageKind}
    {stream rest : List UInt8} {message : α} :
    expectedMessage parse kind stream = (.ok message, rest) ↔
      ∃ tunnels, ∃ f : Frame, Stops kind 10 tunnels f.kind ∧ parse f.payload = some message ∧
        stream = Frame.wire tunnels ++ (f.bytes ++ rest) := by
  constructor
  · intro h
    unfold expectedMessage at h
    split at h
    · cases h
    · rename_i messageKind after hfirst
      split at h
      · cases h
      · rename_i remaining hskip
        obtain ⟨tunnels, last, hstops, hbytes⟩ := stops_of_skipTunnels hskip
        obtain ⟨f, rfl, hparse, rfl⟩ := (getMessage_iff last).mp h
        refine ⟨tunnels, f, hstops, hparse, ?_⟩
        rw [readU16_eq_ok.mp hfirst, hbytes, f.bytes_eq, List.append_assoc]
  · rintro ⟨tunnels, f, hstops, hparse, rfl⟩
    rw [f.bytes_eq, List.append_assoc]
    obtain ⟨next, stream, hnext⟩ := starts_with_kind tunnels f.kind (f.body ++ rest)
    have hskip := skipTunnels_of_stops hstops hnext
    rw [hnext]
    simp only [expectedMessage, readU16_append, hskip]
    exact (getMessage_iff f.kind).mpr ⟨f, rfl, hparse, rfl⟩

-- Ten frames for the tunnel and then one of another kind than the expected, which parses all
-- the same.
def Overrun (parse : List UInt8 → Option α) (kind : MessageKind) (stream : List UInt8) : Prop :=
  kind ≠ .UDPTunnel ∧ ∃ tunnels : List Frame, ∃ f : Frame, ∃ rest, tunnels.length = 10 ∧
    (∀ t ∈ tunnels, t.kind = MessageKind.UDPTunnel.toU16) ∧ f.kind ≠ kind.toU16 ∧
    (parse f.payload).isSome ∧ stream = Frame.wire tunnels ++ (f.bytes ++ rest)

theorem MessageKind.tryFrom_toU16 (kind : MessageKind) : tryFrom kind.toU16 = .ok kind := by
  cases kind <;> rfl

theorem MessageKind.toU16_inj {kind kind' : MessageKind} (h : kind.toU16 = kind'.toU16) :
    kind = kind' := by
  have hsame := kind.tryFrom_toU16
  rw [h, tryFrom_toU16] at hsame
  exact (Except.ok.inj hsame).symm

-- The frames of a stream can be read in one way only, so the last one is of the kind.
theorem Expected.kind_eq {parse : List UInt8 → Option α} {kind : MessageKind}
    {tunnels : List Frame} {f : Frame} {message : α}
    (h : Expected parse kind (Frame.wire tunnels ++ f.bytes) message) : f.kind = kind.toU16 := by
  generalize hword : Frame.wire tunnels ++ f.bytes = word at h
  cases h with
  | @Found tunnels' f' message htunnels hcount hkind hparse =>
      have hwire : (tunnels ++ [f]).flatMap Frame.bytes =
          (tunnels' ++ [f']).flatMap Frame.bytes := by
        simpa [Frame.wire] using hword
      have hframes := Frame.prefixFree_bytes.flatMap_inj Frame.bytes_ne_nil hwire
      obtain ⟨-, hlast⟩ := List.append_inj' hframes rfl
      cases hlast
      exact hkind

-- `expected_message` takes only what the server waits for, unless the stream overruns the
-- ten turns of its loop: the frame after them is parsed whatever its kind is.
theorem expectedMessage_sound_iff (parse : List UInt8 → Option α) (kind : MessageKind)
    (stream : List UInt8) :
    (∀ message rest, expectedMessage parse kind stream = (.ok message, rest) →
        ∃ word, Expected parse kind word message ∧ stream = word ++ rest) ↔
      ¬Overrun parse kind stream := by
  constructor
  · rintro hsound ⟨hkind, tunnels, f, rest, hcount, htunnels, hother, hparse, rfl⟩
    obtain ⟨message, hmessage⟩ := Option.isSome_iff_exists.mp hparse
    have hstops : Stops kind 10 tunnels f.kind := by
      refine ⟨htunnels, ?_, .inr hcount⟩
      intro t ht heq
      exact hkind (MessageKind.toU16_inj (heq.symm.trans (htunnels t ht)))
    obtain ⟨word, hword, hsame⟩ :=
      hsound message rest (expectedMessage_iff.mpr ⟨tunnels, f, hstops, hmessage, rfl⟩)
    rw [← List.append_assoc] at hsame
    have hword' : Expected parse kind (Frame.wire tunnels ++ f.bytes) message :=
      List.append_cancel_right hsame ▸ hword
    exact hother hword'.kind_eq
  · intro hnot message rest h
    obtain ⟨tunnels, f, hstops, hparse, rfl⟩ := expectedMessage_iff.mp h
    have hcount : tunnels.length ≤ 10 := by
      rcases hstops.stop with ⟨-, hle⟩ | heq
      · exact hle
      · exact heq.le
    have hexpected : f.kind = kind.toU16 := by
      by_contra hother
      have hten : tunnels.length = 10 := hstops.stop.resolve_left fun hstop => hother hstop.1
      refine hnot ⟨?_, tunnels, f, rest, hten, hstops.tunnel, hother, by simp [hparse], rfl⟩
      -- the loop has skipped a frame, and it skips none of the expected kind
      rintro rfl
      obtain ⟨t, ht⟩ := List.exists_mem_of_length_pos (l := tunnels) (by omega)
      exact hstops.other t ht (hstops.tunnel t ht)
    refine ⟨Frame.wire tunnels ++ f.bytes, ?_, (List.append_assoc ..).symm⟩
    exact .Found hstops.tunnel hcount hexpected hparse

-- Ten empty frames for the tunnel and an empty ping, where a version is expected.

theorem Frame.nil_fits : ([] : List UInt8).length < 2 ^ 32 := Nat.two_pow_pos 32

def sampleTunnel : Frame := ⟨MessageKind.UDPTunnel.toU16, [], Frame.nil_fits⟩

def sampleNoVersion : Frame := ⟨MessageKind.Ping.toU16, [], Frame.nil_fits⟩

def sampleOverrun : List UInt8 :=
  Frame.wire (List.replicate 10 sampleTunnel) ++ sampleNoVersion.bytes

-- An empty payload is a message of any kind that has no required fields.
def sampleParse (data : List UInt8) : Option Unit := if data = [] then some () else none

theorem overrun_parses_other_kind :
    expectedMessage sampleParse .Version sampleOverrun = (.ok (), []) ∧
      ¬∃ word, Expected sampleParse .Version word () ∧ sampleOverrun = word ++ [] := by
  refine ⟨by decide, ?_⟩
  rintro ⟨word, hword, hsame⟩
  rw [List.append_nil] at hsame
  have hkind : sampleNoVersion.kind = MessageKind.Version.toU16 := (hsame ▸ hword).kind_eq
  exact absurd hkind (by decide)

end Mumble
