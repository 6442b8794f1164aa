import Mumble.Deeds

namespace Mumble

open Mumble.Lib

variable {B : ClientMessage → Prop}

-- A client was sent more messages, all of a kind, or refused some, or its queue was closed.
structure Client.Extends (B : ClientMessage → Prop) (c c' : Client) : Prop where
  sent : ∃ messages, c'.sent = c.sent ++ messages ∧ ∀ message ∈ messages, B message
  dropped : c.dropped = true → c'.dropped = true
  closed : c.closed = true → c'.closed = true

namespace Client.Extends

variable {c c' c'' : Client}

theorem of_eq (hsent : c'.sent = c.sent) (hdropped : c'.dropped = c.dropped)
    (hclosed : c'.closed = c.closed) : c.Extends B c' := by
  refine ⟨⟨[], by rw [hsent, List.append_nil], by simp⟩, ?_, ?_⟩
  · rw [hdropped]
    exact id
  · rw [hclosed]
    exact id

theorem refl (c : Client) : c.Extends B c := of_eq rfl rfl rfl

theorem trans (h : c.Extends B c') (h' : c'.Extends B c'') : c.Extends B c'' := by
  obtain ⟨messages, hsent, hall⟩ := h.sent
  obtain ⟨messages', hsent', hall'⟩ := h'.sent
  refine ⟨⟨messages ++ messages', ?_, ?_⟩, fun hdropped => h'.dropped (h.dropped hdropped),
    fun hclosed => h'.closed (h.closed hclosed)⟩
  · rw [hsent', hsent, List.append_assoc]
  · intro message hmessage
    rcases List.mem_append.mp hmessage with hmem | hmem
    · exact hall message hmem
    · exact hall' message hmem

end Client.Extends

namespace Deed

-- What a deed sends to the client.
def sends : Deed → List ClientMessage
  | .Write message => [.SendMessage message]
  | .Push message => [message]
  | _ => []

theorem extends_apply (c : Client) {d : Deed} (h : ∀ message ∈ d.sends, B message) :
    c.Extends B (d.apply c) := by
  cases d with
  | Write message => exact ⟨⟨[.SendMessage message], rfl, h⟩, id, id⟩
  | Push message => exact ⟨⟨[message], rfl, h⟩, id, id⟩
  | Lose => exact ⟨⟨[], (List.append_nil _).symm, by simp⟩, fun _ => rfl, id⟩
  | Close | Finish => exact ⟨⟨[], (List.append_nil _).symm, by simp⟩, id, fun _ => rfl⟩
  | _ => exact .of_eq rfl rfl rfl

end Deed

namespace ServerState

variable {A : ClientRef → Client → Deed → Prop} {K : Area → Prop} {s s' s'' : ServerState}
  {r : ClientRef} {now : Instant}

-- Between two states every client was sent more messages of a kind.
def Sends (B : ClientMessage → Prop) (s s' : ServerState) : Prop :=
  ∀ q, (s.get q).Extends B (s'.get q)

namespace Sends

theorem of_heap (h : s'.heap = s.heap) : Sends B s s' := by
  intro q
  rw [show s'.get q = s.get q from congrFun h q]
  exact .refl _

theorem refl (s : ServerState) : Sends B s s := of_heap rfl

theorem trans (h : Sends B s s') (h' : Sends B s' s'') : Sends B s s'' :=
  fun q => (h q).trans (h' q)

end Sends

theorem sends_modify {f : Client → Client} (hsent : ∀ c, (f c).sent = c.sent)
    (hdropped : ∀ c, (f c).dropped = c.dropped) (hclosed : ∀ c, (f c).closed = c.closed) :
    Sends B s (s.modify r f) := by
  intro q
  by_cases hq : q = r
  · subst hq
    rw [get_modify_self]
    exact .of_eq (hsent _) (hdropped _) (hclosed _)
  · rw [get_modify_ne f hq]
    exact .refl _

theorem Does.sends (h : s.Does A K s')
    (hA : ∀ {q c d}, A q c d → ∀ message ∈ Deed.sends d, B message) : Sends B s s' := fun q =>
  (h.clients q).kept (I := (s.get q).Extends B)
    (fun hd hc => hc.trans (Deed.extends_apply _ (hA hd))) (.refl _)

-- The deeds that send nothing else.
def Sending (B : ClientMessage → Prop) (_ : ClientRef) (_ : Client) (d : Deed) : Prop :=
  ∀ message ∈ d.sends, B message

theorem lenient_sending
    (hB : ∀ message : ServerMessage, message.isNews = false → B (.SendMessage message)) :
    Lenient now (Sending B) := by
  intro q c d hd
  cases d with
  | Write message =>
      have hquiet : message.isNews = false := by
        cases message <;> first | exact hd | rfl
      exact List.forall_mem_singleton.mpr (hB message hquiet)
  | Push message => exact absurd hd id
  | _ => exact fun _ hmessage => absurd hmessage List.not_mem_nil

end ServerState

end Mumble
