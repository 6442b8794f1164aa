import Mathlib.Logic.Relation
import Mumble.Crypt.Nonce
import Mumble.Reachable
import Mumble.Sampler

/-!
What an operation does to the clients, deed by deed, and which parts of the state it
leaves alone. A deed changes one client and is a function of it; a condition beside it
says when the operation may do it. Every other statement about what operations send,
note or keep follows from these.
-/

namespace Mumble

open Mumble.Lib

def VoicePacket.position {dst : VoicePacketDst} : VoicePacket dst → Option (List UInt8)
  | .Ping _ => none
  | .Audio _ _ _ _ positionInfo => positionInfo

-- The messages that tell a client which channels there are and who is in them.
def ServerMessage.isNews : ServerMessage → Bool
  | .ChannelState _ | .ChannelRemove _ | .UserState _ | .UserRemove _ => true
  | _ => false

-- What a call that reads the clock finds there.
def CryptOp.At (now : Instant) : CryptOp → Prop
  | .Decrypt _ time _ => time = now
  | .Reset time => time = now
  | _ => True

inductive Deed where
  -- bytes to its stream, and its queue
  | Write (message : ServerMessage)
  | Push (message : ClientMessage)
  | Lose
  -- what the anticheat knows of it
  | Position (ac : AnticheatConfig) (now : Instant) (x y z : Float32)
  | Stamp (now : Instant)
  | Emission (ac : AnticheatConfig) (recipients : UInt32)
  | Hear (ac : AnticheatConfig) (now : Instant) (name : String) (session : UInt32) (ip : String)
  | Record (ac : AnticheatConfig) (now : Instant) (keys : List UInt64)
  | Reset
  | Forget
  | Exempt (exempt : Bool)
  | Charge (ac : AnticheatConfig) (limits : Limits) (now : Instant) (active : UInt32) (me : Snap)
      (m : Measures)
  | Flag (now : Instant)
  -- the rest of it
  | Mute (mute : Bool)
  | Deafen (deaf : Bool)
  | Join (channelId : UInt32)
  | Aim (id : UInt8) (target : VoiceTarget)
  | Bind (addr : SocketAddr)
  | Unbind
  | Crypt (op : CryptOp) (crypt : CryptState)
  | PingTcp (now : Instant) (netStats : NetStats) (good late lost resync : UInt32)
  | PingUdp (now : Instant)
  -- its tasks and its connection
  | Fail
  | Stop
  | Close
  | Finish
  | Cancel
  | Network (write : Writer) (link : Link)

namespace Deed

def apply (c : Client) : Deed → Client
  | .Write message => { c with sent := c.sent ++ [.SendMessage message] }
  | .Push message => { c with queue := c.queue ++ [message], sent := c.sent ++ [message] }
  | .Lose => { c with dropped := true }
  | .Position ac now x y z => { c with ac := ac.notePosition now x y z c.ac }
  | .Stamp now => { c with ac := { c.ac with lastHeardRec := some now } }
  | .Emission ac recipients => { c with ac := ac.noteEmission recipients c.ac }
  | .Hear ac now name session ip => { c with ac := ac.noteHeard now name session ip c.ac }
  | .Record ac now keys => { c with ac := ac.recordTargets now keys c.ac }
  | .Reset => { c with ac := c.ac.resetCounters }
  | .Forget => { c with ac := { c.ac with heard := ∅ } }
  | .Exempt exempt => { c with ac := { c.ac with exempt } }
  | .Charge ac limits now active me m =>
      { c with ac := { c.ac with
          window := me.window ac now
          farTargets := m.far
          posHist := me.posHist now
          posJumps := m.posOsc
          strikes := m.count limits active c.ac.strikes
          score :=
            if m.flags limits active c.ac.strikes then c.ac.score + m.metric.toUInt64
            else c.ac.score } }
  | .Flag now => { c with ac := { c.ac with lastFlag := now, flags := c.ac.flags + 1 } }
  | .Mute mute => { c with mute }
  | .Deafen deaf => { c with deaf }
  | .Join channelId => { c with channelId }
  | .Aim id target => c.setTarget id target
  | .Bind addr => { c with udpSocketAddr := some addr }
  | .Unbind => { c with udpSocketAddr := none }
  | .Crypt _ crypt => { c with crypt }
  | .PingTcp now netStats good late lost resync =>
      { c with
        lastTcpPing := now
        netStats
        crypt :=
          { c.crypt with
            remoteGood := good, remoteLate := late, remoteLost := lost, remoteResync := resync } }
  | .PingUdp now => { c with lastUdpPing := now }
  | .Fail => { c with badNetCount := c.badNetCount + 1 }
  | .Stop => { c with stopped := true }
  | .Close => { c with closed := true }
  | .Finish => { c with stopped := true, closed := true, finished := true }
  | .Cancel => { c with cancelled := true, write := .Taken }
  | .Network write link => { c with write := c.write.become write, link }

-- No deed changes who a client is.
theorem sessionId_apply (c : Client) (d : Deed) : (d.apply c).sessionId = c.sessionId := by
  cases d <;> rfl

-- The deeds that any operation may do.
def Routine (now : Instant) (c : Client) : Deed → Prop
  | .Write (.UDPTunnel _) => False
  | .Write message => message.isNews = false
  | .Stamp time | .PingTcp time .. | .PingUdp time => time = now
  | .Crypt op crypt => op.At now ∧ op.apply c.crypt = .ok crypt
  | .Push _ | .Position .. | .Hear .. | .Record .. | .Reset | .Forget | .Exempt _ | .Charge ..
  | .Flag _ | .Mute _ | .Deafen _ | .Bind _ | .Fail | .Stop | .Close | .Finish => False
  | _ => True

end Deed

namespace Client

variable {A : Client → Deed → Prop} {c c' c'' : Client} {now : Instant}

-- One client comes from the other by deeds of a kind. The condition is on the client as
-- it is when the deed is done.
def Does (A : Client → Deed → Prop) : Client → Client → Prop :=
  Relation.ReflTransGen fun c c' => ∃ d : Deed, A c d ∧ c' = d.apply c

namespace Does

theorem refl (c : Client) : c.Does A c := Relation.ReflTransGen.refl

theorem trans (h : c.Does A c') (h' : c'.Does A c'') : c.Does A c'' :=
  Relation.ReflTransGen.trans h h'

theorem one (d : Deed) (h : A c d) : c.Does A (d.apply c) :=
  Relation.ReflTransGen.single ⟨d, h, rfl⟩

theorem more (h : c.Does A c') (d : Deed) (hd : A c' d) : c.Does A (d.apply c') := h.trans (one d hd)

-- What one deed keeps, all of them keep.
theorem kept {I : Client → Prop} (h : c.Does A c')
    (hdeed : ∀ {c d}, A c d → I c → I (d.apply c)) (hc : I c) : I c' := by
  induction h with
  | refl => exact hc
  | tail _ hlast ih =>
      obtain ⟨d, hd, rfl⟩ := hlast
      exact hdeed hd ih

-- A part of a client that no deed of the kind touches.
theorem field {α : Type} (φ : Client → α) (h : c.Does A c')
    (hdeed : ∀ {c d}, A c d → φ (d.apply c) = φ c) : φ c' = φ c :=
  h.kept (I := fun x => φ x = φ c) (fun hd hc => (hdeed hd).trans hc) rfl

end Does

theorem does_sendMessage {message : ServerMessage} (h : A c (.Write message)) :
    c.Does A (c.sendMessage message).1 := by
  unfold sendMessage
  split
  · exact .one (.Write message) h
  · exact .refl c

theorem does_trySend {message : ClientMessage}
    (hpush : c.queue.length < QUEUE_CAPACITY → A c (.Push message)) (hlose : A c .Lose) :
    c.Does A (c.trySend message).1 := by
  unfold trySend
  split_ifs with _ hfull
  · exact .refl c
  · exact .one .Lose hlose
  · exact .one (.Push message) (hpush (Nat.lt_of_not_le hfull))

-- Calls of the crypt state.
section Crypt

variable (hA : ∀ c op crypt, (Deed.Crypt op crypt).Routine now c → A c (.Crypt op crypt))
include hA

theorem does_decrypt {dst : VoicePacketDst} {buf : List UInt8} {crypt : CryptState}
    {packet : Except DecryptError (VoicePacket dst)}
    (h : c.crypt.decrypt dst now buf = .ok (crypt, packet)) : c.Does A { c with crypt } := by
  refine .one (.Crypt (.Decrypt dst now buf) crypt) (hA _ _ _ ⟨rfl, ?_⟩)
  simp only [CryptOp.apply, h, Exec.ok_bind]
  rfl

theorem does_encrypt {dir : VoicePacketDst} {packet : VoicePacket dir} {dst out : List UInt8}
    {crypt : CryptState} (h : c.crypt.encrypt packet dst = .ok (crypt, out)) :
    c.Does A { c with crypt } := by
  refine .one (.Crypt (.Encrypt dir packet dst) crypt) (hA _ _ _ ⟨trivial, ?_⟩)
  simp only [CryptOp.apply, h, Exec.ok_bind]
  rfl

theorem does_sendVoicePacket {packet : VoicePacket .ClientBound} {result : MumbleResult}
    (hwrite : A c (.Write (.UDPTunnel (encodeVoicePacket packet []))))
    (h : c.sendVoicePacket packet = .ok (c', result)) : c.Does A c' := by
  unfold sendVoicePacket at h
  split at h
  · obtain ⟨⟨crypt, dest⟩, hencrypt, h⟩ := Exec.bind_eq_ok.mp h
    cases h
    exact does_encrypt hA hencrypt
  · have hsend := does_sendMessage hwrite
    rw [Except.ok.inj h] at hsend
    exact hsend

end Crypt

end Client

-- The parts of the state beside the clients that an operation may change.
inductive Area where
  | Channels
  | Bans
  | Settings

namespace ServerState

variable {A : ClientRef → Client → Deed → Prop} {K : Area → Prop} {s s' s'' : ServerState}
  {r q : ClientRef} {k : UInt32} {now : Instant}

-- What stays as it is beside those parts.
structure Frame (K : Area → Prop) (s s' : ServerState) : Prop where
  next : s'.next = s.next
  strips : s'.removePositionalData = s.removePositionalData
  sessionCount : s'.sessionCount = s.sessionCount
  channels : ¬K .Channels → s'.channels = s.channels
  bans : ¬K .Bans → s'.bans = s.bans
  settings : ¬K .Settings → s'.anticheat = s.anticheat

theorem Frame.refl (s : ServerState) : Frame K s s :=
  ⟨rfl, rfl, rfl, fun _ => rfl, fun _ => rfl, fun _ => rfl⟩

theorem Frame.trans (h : Frame K s s') (h' : Frame K s' s'') : Frame K s s'' where
  next := h'.next.trans h.next
  strips := h'.strips.trans h.strips
  sessionCount := h'.sessionCount.trans h.sessionCount
  channels hK := (h'.channels hK).trans (h.channels hK)
  bans hK := (h'.bans hK).trans (h.bans hK)
  settings hK := (h'.settings hK).trans (h.settings hK)

-- Between two states every client has had deeds of a kind done to it.
structure Does (A : ClientRef → Client → Deed → Prop) (K : Area → Prop) (s s' : ServerState) :
    Prop where
  clients : ∀ q, (s.get q).Does (A q) (s'.get q)
  frame : Frame K s s'

namespace Does

-- Something is done that is not done to the clients.
theorem of_heap (hframe : Frame K s s') (h : s'.heap = s.heap) : s.Does A K s' := by
  refine ⟨fun q => ?_, hframe⟩
  rw [show s'.get q = s.get q from congrFun h q]
  exact .refl _

theorem refl (s : ServerState) : s.Does A K s := of_heap (.refl s) rfl

theorem trans (h : s.Does A K s') (h' : s'.Does A K s'') : s.Does A K s'' :=
  ⟨fun q => (h.clients q).trans (h'.clients q), h.frame.trans h'.frame⟩

theorem sessionId (h : s.Does A K s') (q : ClientRef) :
    (s'.get q).sessionId = (s.get q).sessionId :=
  (h.clients q).field Client.sessionId fun {c d} _ => d.sessionId_apply c

end Does

-- All but the tables of the clients.
def core (s : ServerState) :=
  (s.heap, s.next, s.removePositionalData, s.sessionCount, s.channels, s.bans, s.anticheat)

theorem does_tables (h : s'.core = s.core) : s.Does A K s' := by
  simp only [core, Prod.mk.injEq] at h
  obtain ⟨hheap, hnext, hstrips, hcount, hchannels, hbans, hsettings⟩ := h
  exact .of_heap ⟨hnext, hstrips, hcount, fun _ => hchannels, fun _ => hbans, fun _ => hsettings⟩ hheap

theorem does_channels (hK : K .Channels) (channels : ChannelMap) (channelCount : UInt32) :
    s.Does A K { s with channels, channelCount } :=
  .of_heap ⟨rfl, rfl, rfl, fun h => absurd hK h, fun _ => rfl, fun _ => rfl⟩ rfl

theorem does_bans (hK : K .Bans) (bans : BanList) : s.Does A K { s with bans } :=
  .of_heap ⟨rfl, rfl, rfl, fun _ => rfl, fun h => absurd hK h, fun _ => rfl⟩ rfl

theorem does_set {c : Client} (h : (s.get r).Does (A r) c) : s.Does A K (s.set r c) := by
  refine ⟨fun q => ?_, rfl, rfl, rfl, fun _ => rfl, fun _ => rfl, fun _ => rfl⟩
  by_cases hq : q = r
  · subst hq
    rw [get_set_self]
    exact h
  · rw [get_set_ne c hq]
    exact .refl _

theorem does_modify {f : Client → Client} (h : (s.get r).Does (A r) (f (s.get r))) :
    s.Does A K (s.modify r f) := does_set h

theorem does_call {ε : Type} {f : Client → Client × ε} (h : (s.get r).Does (A r) (f (s.get r)).1) :
    s.Does A K (s.call r f).1 := does_set h

theorem does_foldl_mem {α : Type} {f : ServerState → α → ServerState} {l : List α}
    (h : ∀ s, ∀ a ∈ l, Does A K s (f s a)) (s : ServerState) : s.Does A K (l.foldl f s) := by
  induction l generalizing s with
  | nil => exact .refl s
  | cons a l ih =>
      refine (h s a (List.mem_cons_self ..)).trans (ih (fun s b hb => ?_) (f s a))
      exact h s b (List.mem_cons_of_mem _ hb)

theorem does_foldl {α : Type} {f : ServerState → α → ServerState} (h : ∀ s a, Does A K s (f s a))
    (s : ServerState) (l : List α) : s.Does A K (l.foldl f s) :=
  does_foldl_mem (fun s a _ => h s a) s

theorem does_andThen {x : ServerState × MumbleResult}
    {f : ServerState → ServerState × MumbleResult} (hx : s.Does A K x.1)
    (hf : ∀ t, Does A K t (f t).1) : s.Does A K (andThen x f).1 := by
  obtain ⟨t, result⟩ := x
  cases result with
  | ok _ => exact hx.trans (hf t)
  | error e => exact hx

theorem does_releaseSocket (s : ServerState) (addr : Option SocketAddr) :
    s.Does A K (s.releaseSocket addr) := by
  cases addr <;> exact does_tables rfl

theorem does_update {message : UserState} (hmute : ∀ c b, message.mute = some b → A r c (.Mute b))
    (hdeaf : ∀ c b, A r c (.Deafen b)) : s.Does A K (s.modify r fun c => c.update message) := by
  rw [modify_update]
  refine Does.trans (does_modify ?_) (does_modify ?_)
  · cases hm : message.mute with
    | none => exact .refl _
    | some mute => exact .one (.Mute mute) (hmute _ mute hm)
  · cases message.deaf with
    | none => exact .refl _
    | some deaf => exact .one (.Deafen deaf) (hdeaf _ deaf)

-- What an action says about the client being exempt.
def UserAction.exempts : UserAction → Option Bool
  | .Block => some false
  | .Unblock => some true
  | .Kick | .Reset | .Ban => none

-- What is done to a client when one of its tasks ends.
def Loop.ends : Loop → Deed
  | .Tcp => .Stop
  | .Queue => .Close

-- The condition lets the routine deeds pass.
def Lenient (now : Instant) (A : ClientRef → Client → Deed → Prop) : Prop :=
  ∀ ⦃q c⦄ ⦃d : Deed⦄, d.Routine now c → A q c d

-- It lets news pass, which goes through the queues that have room.
def Tells (A : ClientRef → Client → Deed → Prop) : Prop :=
  ∀ ⦃q c⦄ ⦃message : ServerMessage⦄, message.isNews = true → c.queue.length < QUEUE_CAPACITY →
    A q c (.Push (.SendMessage message))

section Routine

variable (hA : Lenient now A)
include hA

theorem does_routine (d : Deed) (hd : d.Routine now (s.get r)) :
    s.Does A K (s.modify r fun c => d.apply c) :=
  does_modify (.one d (hA hd))

theorem does_trySend (s : ServerState) (r : ClientRef) {message : ClientMessage}
    (h : (s.get r).queue.length < QUEUE_CAPACITY → A r (s.get r) (.Push message)) :
    s.Does A K (s.trySend r message) := by
  have hcall : s.Does A K (s.call r fun c => c.trySend message).1 :=
    does_call (Client.does_trySend h (hA trivial))
  unfold trySend
  generalize s.call r (fun c => c.trySend message) = called at hcall ⊢
  obtain ⟨s', accepted⟩ := called
  cases accepted with
  | true => exact hcall
  | false => exact hcall.trans (does_tables rfl)

theorem does_send (s : ServerState) (r : ClientRef) (message : Client → ServerMessage)
    (h : ∀ c, (Deed.Write (message c)).Routine now c) :
    s.Does A K (s.call r fun c => c.sendMessage (message c)).1 :=
  does_call (Client.does_sendMessage (hA (h _)))

theorem does_recordChannel (s : ServerState) (r : ClientRef) (k : UInt32) :
    s.Does A K (s.recordChannel r k) := does_routine hA (.Join k) trivial

-- The tasks of a client.

omit hA in
theorem does_stop (s : ServerState) (r : ClientRef) (loop : Loop)
    (hstop : ∀ c, A r c loop.ends) : s.Does A K (s.stop r loop) := by
  unfold stop
  cases loop with
  | Tcp => exact does_modify (.one .Stop (hstop _))
  | Queue => exact does_modify (.one .Close (hstop _))

omit hA in
theorem does_countFailure (s : ServerState) (r : ClientRef) (loop : Loop) (result : MumbleResult)
    (hfail : ∀ e, result = .error e → e ≠ .Waiting → A r (s.get r) .Fail)
    (hstop : ∀ c, A r c loop.ends) : s.Does A K (s.countFailure r loop result) := by
  rcases countFailure_cases s r loop result with
    ⟨hsame, -⟩ | ⟨⟨e, he, hended⟩, ⟨hcounted, -⟩ | ⟨hstopped, -⟩⟩
  · rw [hsame]
    exact .refl s
  · rw [hcounted]
    exact does_modify (.one .Fail (hfail e he hended))
  · rw [hstopped]
    exact (does_modify (.one .Fail (hfail e he hended))).trans (does_stop _ r loop hstop)

theorem does_detachClient (s : ServerState) (r : ClientRef) (session : UInt32) :
    s.Does A K (s.detachClient r session) := by
  unfold detachClient
  dsimp only
  refine Does.trans ?_ (does_releaseSocket _ _)
  refine Does.trans ?_ (does_call (.one .Unbind (hA trivial)))
  refine Does.trans ?_ (does_routine hA .Cancel trivial)
  exact does_tables rfl

-- Voice.

omit hA in
theorem does_notePosition {packet : VoicePacket .ClientBound}
    (hposition : ∀ x y z, packet.position.isSome → A r (s.get r) (.Position s.anticheat now x y z))
    (h : s.notePosition r now packet = .ok s') : s.Does A K s' := by
  unfold notePosition at h
  split at h
  · split_ifs at h
    · obtain ⟨x, -, h⟩ := Exec.bind_eq_ok.mp h
      obtain ⟨y, -, h⟩ := Exec.bind_eq_ok.mp h
      obtain ⟨z, -, h⟩ := Exec.bind_eq_ok.mp h
      cases h
      exact does_modify (.one (.Position s.anticheat now x y z) (hposition x y z rfl))
    · cases h
      exact .refl s
  · cases h
    exact .refl s

theorem does_sendToAll (recordHeard : Bool) (packet : VoicePacket .ClientBound)
    (recipients : UInt32) (listeners : List ClientRef)
    (haudio : ∀ q c, c.queue.length < QUEUE_CAPACITY → c.deaf = false →
      A q c (.Push (.SendVoicePacket packet)))
    (hhear : ∀ q c ac name session ip, A q c (.Hear ac now name session ip)) :
    s.Does A K (s.sendToAll r now recordHeard packet recipients listeners).1 := by
  induction listeners generalizing s recipients with
  | nil => exact .refl s
  | cons listener rest ih =>
      have hpush (t : ServerState) (hdeaf : (t.get listener).deaf = false) :
          t.Does A K (t.trySend listener (.SendVoicePacket packet)) :=
        does_trySend hA t listener fun hroom => haudio _ _ hroom hdeaf
      unfold sendToAll
      split_ifs with hdeaf hrecord
      · exact ih _
      · have hheard : s.Does A K (s.noteHeard r listener now) := by
          unfold noteHeard
          exact does_modify (.one (.Hear s.anticheat now _ _ _) (hhear _ _ _ _ _ _))
        refine (hheard.trans (hpush _ ?_)).trans (ih _)
        unfold noteHeard
        rw [get_modify_self]
        exact Bool.eq_false_iff.mpr hdeaf
      · exact (hpush s (Bool.eq_false_iff.mpr hdeaf)).trans (ih _)

theorem does_sendVoicePacket {c : Client} {packet : VoicePacket .ClientBound}
    {result : MumbleResult}
    (hwrite : A r (s.get r) (.Write (.UDPTunnel (encodeVoicePacket packet []))))
    (h : (s.get r).sendVoicePacket packet = .ok (c, result)) : s.Does A K (s.set r c) :=
  does_set (Client.does_sendVoicePacket (fun _ _ _ hroutine => hA hroutine) hwrite h)

theorem does_handleVoicePacket {packet : VoicePacket .ClientBound} {result : MumbleResult}
    (hposition : ∀ c x y z, packet.position.isSome → A r c (.Position s.anticheat now x y z))
    (haudio : (s.get r).mute = false → ∀ q c, c.queue.length < QUEUE_CAPACITY → c.deaf = false →
      A q c (.Push (.SendVoicePacket packet)))
    (hloop : (s.get r).mute = false →
      ∀ c, A r c (.Write (.UDPTunnel (encodeVoicePacket packet []))))
    (hhear : ∀ q c ac name session ip, A q c (.Hear ac now name session ip))
    (h : s.handleVoicePacket r now packet = .ok (s', result)) : s.Does A K s' := by
  unfold handleVoicePacket at h
  obtain ⟨s₁, hnote, h⟩ := Exec.bind_eq_ok.mp h
  have hnoted : s.Does A K s₁ := does_notePosition (hposition _) hnote
  have hmute : (s₁.get r).mute = (s.get r).mute := by
    rcases notePosition_cases hnote with rfl | ⟨x, y, z, rfl⟩
    · rfl
    · rw [get_modify_self]
  refine hnoted.trans ?_
  split_ifs at h with hmuted
  · cases h
    exact .refl _
  · have hspeaks : (s.get r).mute = false := by
      rw [← hmute]
      exact Bool.eq_false_iff.mpr hmuted
    cases packet with
    | Ping timestamp =>
        cases h
        exact .refl _
    | Audio target sessionId seqNum payload positionInfo =>
        have hsent (t : ServerState) (record : Bool) (listeners : List ClientRef) :
            t.Does A K (t.sendToAll r now record
              (.Audio target sessionId seqNum payload positionInfo) 0 listeners).1 :=
          does_sendToAll hA record _ 0 listeners (haudio hspeaks) hhear
        have hemitted (t : ServerState) (recipients : UInt32) : t.Does A K (t.modify r fun c =>
            { c with ac := t.anticheat.noteEmission recipients c.ac }) :=
          does_routine hA (.Emission t.anticheat recipients) trivial
        dsimp only at h
        split_ifs at h with htarget hrecord
        · obtain ⟨⟨c, res⟩, hsend, h⟩ := Exec.bind_eq_ok.mp h
          cases h
          exact does_sendVoicePacket hA (hloop hspeaks _) hsend
        · cases h
          exact ((does_routine hA (.Stamp now) rfl).trans (hsent _ _ _)).trans (hemitted _ _)
        · cases h
          exact (hsent _ _ _).trans (hemitted _ _)

theorem does_handleVoiceTarget (s : ServerState) (r : ClientRef) (message : VoiceTargetMessage)
    (hrecord : ¬(message.id.getD 0 < 1 ∨ message.id.getD 0 ≥ 31) → ∀ c,
      A r c (.Record s.anticheat now (fillTarget message.targets).2)) :
    s.Does A K (s.handleVoiceTarget r now message).1 := by
  unfold handleVoiceTarget
  dsimp only
  split_ifs with hvalid
  · exact .refl s
  · split
    · exact .refl s
    · have haimed : s.Does A K (s.modify r fun c =>
          c.setTarget (message.id.getD 0).toUInt8 (fillTarget message.targets).1) :=
        does_routine hA (.Aim _ _) trivial
      dsimp only
      exact haimed.trans (does_modify (.one (.Record _ now _) (hrecord hvalid _)))

-- Datagrams and the crypt state.

theorem does_sendCryptSetup (s : ServerState) (r : ClientRef) (reset : Bool) :
    s.Does A K (s.call r fun c => c.sendCryptSetup now reset).1 := by
  refine does_call ?_
  unfold Client.sendCryptSetup
  cases reset with
  | false => exact Client.does_sendMessage (hA rfl)
  | true =>
      refine Client.Does.trans (.one (.Crypt (.Reset now) ((s.get r).crypt.reset now))
        (hA ⟨rfl, rfl⟩)) ?_
      exact Client.does_sendMessage (hA rfl)

theorem does_resetClientCrypt (s : ServerState) (r : ClientRef) :
    s.Does A K (s.resetClientCrypt r now).1 := by
  unfold resetClientCrypt
  dsimp only
  refine Does.trans ?_ (does_sendCryptSetup hA _ r true)
  refine Does.trans ?_ (does_releaseSocket _ _)
  refine Does.trans ?_ (does_call (.one .Unbind (hA trivial)))
  exact does_tables rfl

theorem does_handleCryptSetup {message : CryptSetup} {result : MumbleResult}
    (h : s.handleCryptSetup r now message = .ok (s', result)) : s.Does A K s' := by
  unfold handleCryptSetup at h
  split at h
  · rename_i nonce _
    obtain ⟨crypt, hcrypt, h⟩ := Exec.bind_eq_ok.mp h
    cases h
    exact does_routine hA (.Crypt (.SetDecryptNonce nonce) crypt) ⟨trivial, hcrypt⟩
  · have hcall : s.Does A K (s.call r fun c => c.sendCryptSetup now false).1 :=
      does_sendCryptSetup hA s r false
    rw [Except.ok.inj h] at hcall
    exact hcall

theorem does_decrypted {dst : VoicePacketDst} {buf : List UInt8} {crypt : CryptState}
    {packet : Except DecryptError (VoicePacket dst)}
    (h : (s.get r).crypt.decrypt dst now buf = .ok (crypt, packet)) :
    s.Does A K (s.modify r fun c => { c with crypt }) :=
  does_set (Client.does_decrypt (fun _ _ _ hroutine => hA hroutine) h)

theorem does_routePacket {packet : VoicePacket .ServerBound} {result : UdpResult}
    (hroute : ∀ c, c.queue.length < QUEUE_CAPACITY → A r c (.Push (.RouteVoicePacket
      (packet.intoClientBound (s.get r).sessionId s.removePositionalData))))
    (h : s.routePacket r now packet = .ok (s', result)) : s.Does A K s' := by
  unfold routePacket at h
  split at h
  · obtain ⟨⟨crypt, dest⟩, hencrypt, h⟩ := Exec.bind_eq_ok.mp h
    cases h
    have hencrypted := Client.does_encrypt (A := A r) (fun _ _ _ hroutine => hA hroutine) hencrypt
    exact does_modify (hencrypted.more (.PingUdp now) (hA rfl))
  · cases h
    exact does_trySend hA s r (hroute _)

theorem does_handleKnown {buffer : List UInt8} {result : UdpResult}
    (hroute : ∀ crypt packet, (s.get r).crypt.decrypt .ServerBound now buffer = .ok (crypt, .ok packet) →
      ∀ c, c.queue.length < QUEUE_CAPACITY → A r c (.Push (.RouteVoicePacket
        (packet.intoClientBound (s.get r).sessionId s.removePositionalData))))
    (h : s.handleKnown r now buffer = .ok (s', result)) : s.Does A K s' := by
  obtain ⟨crypt, decrypted, hdecrypt, hcases⟩ := handleKnown_cases h
  have hcrypt : s.Does A K (s.modify r fun c => { c with crypt }) := does_decrypted hA hdecrypt
  rcases hcases with ⟨packet, rfl, hpacket⟩ | rfl | rfl
  · refine hcrypt.trans (does_routePacket hA ?_ hpacket)
    rw [hcrypt.sessionId]
    exact hroute crypt packet hdecrypt
  · exact hcrypt
  · exact hcrypt.trans (does_resetClientCrypt hA _ r)

-- Every candidate is tried once, with the crypt state that it has at the start.
theorem does_findClientWithDecrypt {bytes : List UInt8} {addr : SocketAddr}
    {candidates : List ClientRef} {found : Option (ClientRef × VoicePacket .ServerBound)}
    (hnodup : candidates.Nodup)
    (hbind : ∀ r ∈ candidates, ∀ crypt packet,
      (s.get r).crypt.decrypt .ServerBound now bytes = .ok (crypt, .ok packet) →
        ∀ c, A r c (.Bind addr))
    (h : s.findClientWithDecrypt now bytes addr candidates = .ok (s', found)) :
    s.Does A K s' ∧ ∀ r packet, found = some (r, packet) → r ∈ candidates ∧
      ∃ crypt, (s.get r).crypt.decrypt .ServerBound now bytes = .ok (crypt, .ok packet) := by
  induction candidates generalizing s with
  | nil =>
      cases h
      exact ⟨.refl _, fun _ _ hfound => nomatch hfound⟩
  | cons r candidates ih =>
      unfold findClientWithDecrypt at h
      obtain ⟨⟨crypt, result⟩, hdecrypt, h⟩ := Exec.bind_eq_ok.mp h
      have hcrypt : s.Does A K (s.modify r fun c => { c with crypt }) := does_decrypted hA hdecrypt
      cases result with
      | ok packet =>
          cases h
          have hbound (t : ServerState) :
              t.Does A K (t.modify r fun c => { c with udpSocketAddr := some addr }) :=
            does_modify (.one (.Bind addr)
              (hbind r (List.mem_cons_self ..) crypt packet hdecrypt _))
          have hset (t : ServerState) : t.Does A K (t.setClientSocket r addr) :=
            ((hbound t).trans (does_releaseSocket _ _)).trans (does_tables rfl)
          refine ⟨(hcrypt.trans (hset _)).trans (does_tables rfl), ?_⟩
          rintro q packet' ⟨⟩
          exact ⟨List.mem_cons_self .., crypt, hdecrypt⟩
      | error e =>
          have hothers (q : ClientRef) (hq : q ∈ candidates) :
              (s.modify r fun c => { c with crypt }).get q = s.get q := by
            refine get_modify_ne _ ?_
            rintro rfl
            exact (List.nodup_cons.mp hnodup).1 hq
          obtain ⟨hdoes, hfound⟩ := ih (List.nodup_cons.mp hnodup).2 (fun q hq crypt packet => by
            rw [hothers q hq]
            exact hbind q (List.mem_cons_of_mem _ hq) crypt packet) h
          refine ⟨hcrypt.trans hdoes, fun q packet hq => ?_⟩
          obtain ⟨hmem, hdecrypts⟩ := hfound q packet hq
          rw [hothers q hmem] at hdecrypts
          exact ⟨List.mem_cons_of_mem _ hmem, hdecrypts⟩

theorem does_handlePing (s : ServerState) (r : ClientRef) (message : PingMessage) :
    s.Does A K (s.handlePing r now message).1 := by
  unfold handlePing
  dsimp only
  refine Does.trans ?_ (does_send hA _ r _ fun _ => rfl)
  exact does_modify (.one (.PingTcp now _ _ _ _ _) (hA rfl))

theorem does_handlePermissionQuery (s : ServerState) (r : ClientRef) (message : PermissionQuery) :
    s.Does A K (s.handlePermissionQuery r message).1 := does_send hA s r _ fun _ => rfl

theorem does_handleUserStats (s : ServerState) (r : ClientRef) :
    s.Does A K (s.handleUserStats r).1 := does_send hA s r _ fun _ => rfl

-- The administrator and the anticheat.

omit hA in
theorem does_applyAction (s : ServerState) (r : ClientRef) (action : UserAction) (hK : K .Bans)
    (hreset : action = .Reset → ∀ c, A r c .Reset)
    (hexempt : ∀ c exempt, action.exempts = some exempt → A r c (.Exempt exempt))
    (hmute : ∀ c exempt, action.exempts = some exempt → A r c (.Mute !exempt)) :
    s.Does A K (s.applyAction r action) := by
  have hflags (t : ServerState) (exempt : Bool) (h : action.exempts = some exempt) : t.Does A K
      (t.modify r fun c => { c with ac := { c.ac with exempt }, mute := !exempt }) :=
    does_modify ((Client.Does.one (.Exempt exempt) (hexempt _ _ h)).more (.Mute !exempt) (hmute _ _ h))
  cases action with
  | Block => exact (does_bans hK _).trans (hflags _ false rfl)
  | Unblock => exact (does_bans hK _).trans (hflags _ true rfl)
  | Reset =>
      unfold applyAction
      exact does_modify (.one .Reset (hreset rfl _))
  | Kick => exact does_tables rfl
  | Ban => exact (does_bans hK _).trans (does_tables rfl)

omit hA in
theorem does_handleAdmin (s : ServerState) (request : AdminRequest) (hK : K .Bans)
    (hsettings : ∀ config, request = .PostAnticheatConfig config → K .Settings)
    (hreset : ∀ user r, request = .PostAnticheatUser user .Reset →
      s.getClientByName user = some r → ∀ c, A r c .Reset)
    (hclear : request = .PostAnticheatClear → ∀ r ∈ s.clients.values, ∀ c, A r c .Reset)
    (hexempt : ∀ user action r, request = .PostAnticheatUser user action →
      s.getClientByName user = some r → ∀ c exempt, action.exempts = some exempt →
        A r c (.Exempt exempt) ∧ A r c (.Mute !exempt))
    (hmute : ∀ user mute r, request = .PostMute user mute → s.getClientByName user = some r →
      ∀ c, A r c (.Mute mute))
    (hdeaf : ∀ user deaf, request = .PostDeaf user deaf → ∀ r c, A r c (.Deafen deaf))
    (hforget : ∀ session, request = .PostHeardClear session → ∀ r c, A r c .Forget) :
    s.Does A K (s.handleAdmin request) := by
  unfold handleAdmin
  cases request with
  | PostMute user mute =>
      refine onNamed_holds (Q := Does A K s) (.refl s) fun r hr => ?_
      exact does_modify (.one (.Mute mute) (hmute user mute r rfl hr _))
  | PostDeaf user deaf =>
      refine onNamed_holds (Q := Does A K s) (.refl s) fun r _ => ?_
      exact does_modify (.one (.Deafen deaf) (hdeaf user deaf rfl r _))
  | PostAnticheatUser user action =>
      refine onNamed_holds (Q := Does A K s) (.refl s) fun r hr => ?_
      refine does_applyAction s r action hK ?_
        (fun c exempt h => (hexempt user action r rfl hr c exempt h).1)
        fun c exempt h => (hexempt user action r rfl hr c exempt h).2
      rintro rfl
      exact hreset user r rfl hr
  | PostAnticheatUnban id => exact does_bans hK _
  | PostAnticheatConfig config =>
      exact .of_heap ⟨rfl, rfl, rfl, fun _ => rfl, fun _ => rfl,
        fun h => absurd (hsettings config rfl) h⟩ rfl
  | PostAnticheatClear =>
      refine does_foldl_mem (fun t r hr => ?_) s
      exact does_modify (.one .Reset (hclear rfl r hr _))
  | PostHeardClear sessionId =>
      dsimp only
      split
      · exact does_modify (.one .Forget (hforget sessionId rfl _ _))
      · exact .refl s

omit hA in
theorem does_flag (s : ServerState) (r : ClientRef) (now : Instant) (reason : String) (hK : K .Bans)
    (hflag : FLAG_COOLDOWN ≤ now - (s.get r).ac.lastFlag → A r (s.get r) (.Flag now))
    (hmute : ∀ c, c.ac.exempt = false → A r c (.Mute true)) :
    s.Does A K (s.flag r now reason) := by
  unfold flag
  dsimp only
  split_ifs with hcool hexempt
  · exact .refl s
  · exact does_modify (.one (.Flag now) (hflag (Nat.le_of_not_lt hcool)))
  · have hflagged : s.Does A K (s.modify r fun c =>
        { c with ac := { c.ac with lastFlag := now, flags := c.ac.flags + 1 } }) :=
      does_modify (.one (.Flag now) (hflag (Nat.le_of_not_lt hcool)))
    split
    · exact hflagged
    · refine hflagged.trans (does_modify (.one (.Mute true) (hmute _ ?_)))
      rw [get_modify_self]
      exact Bool.eq_false_iff.mpr hexempt
    · exact hflagged.trans (does_tables rfl)
    · exact (hflagged.trans (does_bans hK _)).trans (does_tables rfl)

-- What everyone is told.
section News

variable (hnews : Tells A)
include hnews

theorem does_broadcastMessage (s : ServerState) {message : ServerMessage}
    (h : message.isNews = true) : s.Does A K (s.broadcastMessage message) :=
  does_foldl (fun s r => does_trySend hA s r (hnews h)) s _

omit hA hnews in
theorem does_sendAll (s : ServerState) (r : ClientRef) (messages : List ServerMessage)
    (h : ∀ message ∈ messages, ∀ c, A r c (.Write message)) :
    s.Does A K (s.sendAll r messages).1 := by
  induction messages generalizing s with
  | nil => exact .refl s
  | cons message messages ih =>
      refine does_andThen (does_call (Client.does_sendMessage ?_)) fun t => ih t ?_
      · exact h message (List.mem_cons_self ..) _
      · exact fun other hother => h other (List.mem_cons_of_mem _ hother)

-- The new client is told what there is through its stream, the others through their queues.
theorem does_clientRun (s : ServerState) (r : ClientRef)
    (hwrite : ∀ (message : ServerMessage) c, message.isNews = true → A r c (.Write message)) :
    s.Does A K (s.clientRun r).1 := by
  have hchannels (t : ServerState) : t.Does A K (t.syncClientAndChannels r).1 := by
    refine does_andThen (does_sendAll t r _ ?_) fun u => does_sendAll u r _ ?_
    · intro message hmessage c
      obtain ⟨channel, -, rfl⟩ := List.mem_map.mp hmessage
      exact hwrite _ c rfl
    · intro message hmessage c
      obtain ⟨client, -, rfl⟩ := List.mem_map.mp hmessage
      exact hwrite _ c rfl
  refine does_andThen (does_send hA s r _ fun _ => rfl) fun t => ?_
  refine does_andThen (hchannels t) fun t => ?_
  refine does_andThen (does_call (Client.does_sendMessage (hwrite _ _ rfl))) fun t => ?_
  refine does_andThen (does_send hA t r _ fun _ => rfl) fun t => ?_
  refine does_andThen (does_send hA t r _ fun _ => rfl) fun t => ?_
  exact does_broadcastMessage hA hnews t rfl

variable (hK : K .Channels)
include hK

theorem does_deleteChannel (s : ServerState) (k : UInt32) : s.Does A K (s.deleteChannel k) :=
  (does_channels hK _ _).trans (does_broadcastMessage hA hnews _ rfl)

theorem does_handleClientLeftChannel (s : ServerState) (session k : UInt32) :
    s.Does A K (s.handleClientLeftChannel session k).1 := by
  have herased : s.Does A K
      { s with channels := s.channels.alterClients k fun m => m.erase session } :=
    does_channels hK _ _
  unfold handleClientLeftChannel
  split
  · dsimp only
    split_ifs
    · exact herased
    · exact herased.trans (does_deleteChannel hA hnews hK _ k)
  · exact does_deleteChannel hA hnews hK s k

theorem does_setClientChannel (s : ServerState) (r : ClientRef) (k : UInt32) :
    s.Does A K (s.setClientChannel r k).1 := by
  have hentered : s.Does A K (s.enterChannel r k) :=
    (does_recordChannel hA s r k).trans (does_channels hK _ _)
  have hannounced : s.Does A K (s.announceJoin r k) :=
    hentered.trans (does_broadcastMessage hA hnews _ rfl)
  by_cases hlook : s.channels.lookup k = none
  · rw [setClientChannel_none r hlook]
    exact does_recordChannel hA s r k
  · rw [setClientChannel_some r hlook]
    dsimp only
    split_ifs
    · exact hannounced
    · exact hannounced.trans (does_handleClientLeftChannel hA hnews hK _ _ _)

omit hA hnews in
theorem does_changeListeners (s : ServerState) (r : ClientRef) (message : UserState) :
    s.Does A K (s.changeListeners r message) := by
  have hadd (s : ServerState) (k : UInt32) : s.Does A K (s.addListener r k) := does_channels hK _ _
  have hremove (s : ServerState) (k : UInt32) : s.Does A K (s.removeListener r k) :=
    does_channels hK _ _
  exact (does_foldl hadd s _).trans (does_foldl hremove _ _)

theorem does_handleUserState (s : ServerState) (r : ClientRef) (message : UserState)
    (hmute : ∀ c b, message.mute = some b → A r c (.Mute b)) (hdeaf : ∀ c b, A r c (.Deafen b)) :
    s.Does A K (s.handleUserState r message).1 := by
  have hupdate : s.Does A K (s.modify r fun c => c.update message) := does_update hmute hdeaf
  rcases handleUserState_cases s r message with
    hsame | ⟨-, ⟨k, -, hfailed⟩ | hstayed | ⟨k, -, -, hjoined⟩⟩
  · rw [hsame]
    exact .refl s
  · rw [hfailed]
    exact hupdate.trans (does_recordChannel hA _ r k)
  · rw [hstayed]
    exact hupdate.trans (does_changeListeners hK _ r message)
  · rw [hjoined]
    exact (hupdate.trans (does_setClientChannel hA hnews hK _ r k)).trans
      (does_changeListeners hK _ r message)

theorem does_handleChannelState (s : ServerState) (r : ClientRef) (message : ChannelState) :
    s.Does A K (s.handleChannelState r message).1 := by
  rcases handleChannelState_cases s r message with hsame | ⟨-, hcreated⟩
  · rw [hsame]
    exact .refl s
  · rw [hcreated]
    have hadded : s.Does A K (s.addChannel message).1 := does_channels hK _ _
    exact (hadded.trans (does_broadcastMessage hA hnews _ rfl)).trans
      (does_setClientChannel hA hnews hK _ r _)

-- The end of a connection.

theorem does_disconnect (s : ServerState) (session : UInt32) :
    s.Does A K (s.disconnect session) := by
  unfold disconnect
  split
  · exact .refl s
  · rename_i r _
    have hdeleted : s.Does A K
        ((s.detachClient r session).broadcastClientDelete session (s.get r).channelId) :=
      ((does_detachClient hA s r session).trans (does_broadcastMessage hA hnews _ rfl)).trans
        (does_handleClientLeftChannel hA hnews hK _ _ _)
    dsimp only
    split
    · exact hdeleted.trans (does_channels hK _ _)
    · exact hdeleted

theorem does_endLoop (s : ServerState) (r : ClientRef) (hfinish : ∀ c, A r c .Finish) :
    s.Does A K (s.endLoop r) :=
  (does_modify (.one .Finish (hfinish _))).trans (does_disconnect hA hnews hK _ _)

theorem does_cleanRun (s : ServerState) : s.Does A K (s.cleanRun now).1 := by
  obtain ⟨made, -, t, rfl, hend⟩ := cleanRun_cases s now
  have hqueue : s.Does A K { s with disconnectQueue := ∅ } := does_tables rfl
  have hresets := hqueue.trans (does_foldl (fun t r => does_resetClientCrypt hA t r) _ made)
  rcases hend with ⟨-, hdone⟩ | hwaiting
  · rw [hdone]
    exact hresets.trans (does_foldl (fun t session => does_disconnect hA hnews hK t session) _ _)
  · rw [hwaiting]
    exact hresets

end News

end Routine

end ServerState

end Mumble
