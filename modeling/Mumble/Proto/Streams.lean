import Mumble.Framing

/-!
What a client sends over its connection. The server handles the bytes as if it had been
given the messages in them.
-/

namespace Mumble

open Mumble.Lib

-- What the protobuf library finds in a frame.
def Frame.message (pb : Protobuf) (f : Frame) : TcpFrame := pb.frame f.kind f.payload

-- The loop of a client, were its messages not sent as bytes.
structure Inbox where
  state : ServerState
  waiting : List TcpFrame

namespace Inbox

-- One turn. There is nothing to read where nothing is left.
def next (r : ClientRef) (now : Instant) (q : Inbox) : Exec (Inbox × MumbleResult) := do
  let (state, result) ← q.state.readFrame r now (q.waiting.headD .Lost)
  return (⟨state, q.waiting.tail⟩, result)

def Step (r : ClientRef) (q : Inbox) (l : ReadLabel) (q' : Inbox) : Prop :=
  match l with
  | .Call now result => q.state.loops r .Tcp = true ∧ q.next r now = .ok (q', result) ∧
      result ≠ .error .Waiting
  | .Other state => q' = { q with state }

-- The loop over the bytes is as far in the frames as the loop over the messages.
structure AsBytes (pb : Protobuf) (frames : List Frame) (q : Inbox) (p : Reading) : Prop where
  state : p.state = q.state
  rest : ∃ rest, rest <:+ frames ∧ q.waiting = rest.map (Frame.message pb) ∧
    p.stream = Frame.wire rest

variable {pb : Protobuf} {r : ClientRef} {q q' : Inbox} {l : ReadLabel} {p p' : Reading}
  {frames : List Frame}

-- A turn of the one is a turn of the other.
theorem readNext_rest (pb : Protobuf) (now : Instant) {s : ServerState} (hloops : s.loops r .Tcp = true)
    (rest : List Frame) (handled : List (UInt16 × List UInt8)) :
    ∃ handled', Reading.readNext pb r now ⟨s, Frame.wire rest, handled⟩ =
      (next r now ⟨s, rest.map (Frame.message pb)⟩).map fun x =>
        (⟨x.1.state, Frame.wire rest.tail, handled'⟩, x.2) := by
  cases rest with
  | nil =>
      refine ⟨handled, ?_⟩
      rw [Reading.readNext_end now rfl]
      simp only [next, List.map_nil, List.headD_nil, ServerState.readFrame, if_pos hloops]
      rfl
  | cons f rest =>
      refine ⟨handled ++ [f.content], ?_⟩
      rw [Reading.readNext_frame now f (Frame.wire rest) rfl]
      simp only [next, List.map_cons, List.headD_cons, ServerState.readFrame, if_pos hloops,
        Frame.message]
      cases s.handleFrame r now (pb.frame f.kind f.payload) with
      | error panic => rfl
      | ok x => rfl

theorem waiting_next {now : Instant} {result : MumbleResult}
    (h : q.next r now = .ok (q', result)) : q'.waiting = q.waiting.tail := by
  obtain ⟨x, -, h⟩ := Exec.bind_eq_ok.mp h
  cases h
  rfl

theorem step_of_reading (hp : AsBytes pb frames q p) (h : p.Step pb r l p') :
    ∃ q', q.Step r l q' ∧ AsBytes pb frames q' p' := by
  obtain ⟨s, stream, handled⟩ := p
  obtain ⟨rfl, rest, hrest, hwaiting, rfl⟩ := hp
  cases l with
  | Call now result =>
      obtain ⟨hloops, hcall, hended⟩ := h
      obtain ⟨handled', hturn⟩ := readNext_rest pb now hloops rest handled
      obtain ⟨s, waiting⟩ := q
      subst hwaiting
      rw [hturn] at hcall
      cases hnext : next r now ⟨s, rest.map (Frame.message pb)⟩ with
      | error panic =>
          rw [hnext] at hcall
          cases hcall
      | ok x =>
          rw [hnext] at hcall
          cases hcall
          refine ⟨x.1, ⟨hloops, hnext, hended⟩, rfl, rest.tail, (List.tail_suffix rest).trans hrest,
            ?_, rfl⟩
          rw [waiting_next hnext, List.map_tail]
  | Other state =>
      obtain rfl : p' = _ := h
      exact ⟨{ q with state }, rfl, rfl, rest, hrest, hwaiting, rfl⟩

theorem Step.reading (hp : AsBytes pb frames q p) (h : q.Step r l q') :
    ∃ p', p.Step pb r l p' ∧ AsBytes pb frames q' p' := by
  obtain ⟨s, stream, handled⟩ := p
  obtain ⟨rfl, rest, hrest, hwaiting, rfl⟩ := hp
  cases l with
  | Call now result =>
      obtain ⟨hloops, hnext, hended⟩ := h
      obtain ⟨handled', hturn⟩ := readNext_rest pb now hloops rest handled
      have htail := waiting_next hnext
      obtain ⟨s, waiting⟩ := q
      subst hwaiting
      rw [hnext] at hturn
      refine ⟨_, ⟨hloops, hturn, hended⟩, rfl, rest.tail, (List.tail_suffix rest).trans hrest, ?_,
        rfl⟩
      rw [htail, List.map_tail]
  | Other state =>
      obtain rfl : q' = { q with state } := h
      exact ⟨_, rfl, rfl, rest, hrest, hwaiting, rfl⟩

-- Whatever a client sends, whatever the protobuf library makes of it, and whatever else
-- happens to the server meanwhile: what the loop can do with the bytes is what it can do with
-- the messages. It ends in the same states, and what it has not read are the bytes of the
-- messages that are left.
theorem requests_served {s t : ServerState} {labels : List ReadLabel} {left : List UInt8} :
    (∃ handled, Run (Reading.Step pb r) ⟨s, Frame.wire frames, []⟩ labels ⟨t, left, handled⟩) ↔
      ∃ rest, rest <:+ frames ∧ left = Frame.wire rest ∧
        Run (Step r) ⟨s, frames.map (Frame.message pb)⟩ labels ⟨t, rest.map (Frame.message pb)⟩ := by
  have hstart : AsBytes pb frames ⟨s, frames.map (Frame.message pb)⟩ ⟨s, Frame.wire frames, []⟩ :=
    ⟨rfl, frames, List.suffix_rfl, rfl, rfl⟩
  constructor
  · rintro ⟨handled, hrun⟩
    obtain ⟨⟨t', waiting⟩, hinbox, rfl, rest, hrest, rfl, hleft⟩ := hrun.simulation
      (R := fun p q => AsBytes pb frames q p) step_of_reading hstart
    exact ⟨rest, hrest, hleft, hinbox⟩
  · rintro ⟨rest, hrest, rfl, hinbox⟩
    obtain ⟨⟨t', stream, handled⟩, hreading, rfl, rest', hrest', hwaiting, hstream⟩ :=
      hinbox.simulation Step.reading hstart
    -- the two rests are of one length
    have hlength : rest'.length = rest.length := by
      simpa using (congrArg List.length hwaiting).symm
    have hsame : rest' = rest :=
      (List.suffix_of_suffix_length_le hrest' hrest hlength.le).eq_of_length hlength
    rw [hsame] at hstream
    dsimp only at hstream
    subst hstream
    exact ⟨handled, hreading⟩

end Inbox

end Mumble
