import Mumble.Registry.Refinement
import Mathlib.Logic.Relation

namespace Mumble

open Mumble.Lib

namespace Client

-- What the clean-up pass removes a client for.
def TimesOut (now : Instant) (c : Client) : Prop :=
  c.closed = true ∨ (now - c.lastUdpPing) / NANOS ≤ 30 ∧ (now - c.lastTcpPing) / NANOS > 10

-- What it resets the crypt state of a client for.
def Unheard (now : Instant) (c : Client) : Prop :=
  c.closed = false ∧ ((now - c.lastUdpPing) / NANOS > 30 ∨
    (now - c.lastTcpPing) / NANOS ≤ 10 ∧ (now - c.crypt.lastGood) / 1000000 > 8000)

end Client

namespace ServerState

variable {s s' s'' : ServerState} {r : ClientRef} {k : UInt32} {now : Instant}
  {P Q : Registry.Op → Prop}

-- The registry of one state comes from that of the other by operations of a kind.
def Follows (P : Registry.Op → Prop) (s s' : ServerState) : Prop :=
  ∃ ops, Run Registry.Step s.registry ops s'.registry ∧ ∀ op ∈ ops, P op

namespace Follows

theorem of_eq (h : s'.registry = s.registry) : Follows P s s' := by
  refine ⟨[], ?_, by simp⟩
  rw [h]
  exact .Done _

theorem refl (s : ServerState) : Follows P s s := of_eq rfl

theorem single (op : Registry.Op) (hguard : op.Guard s.registry) (hop : P op)
    (h : s'.registry = op.apply s.registry) : Follows P s s' :=
  ⟨[op], .single ⟨hguard, h⟩, by simpa using hop⟩

theorem trans (h : Follows P s s') (h' : Follows P s' s'') : Follows P s s'' := by
  obtain ⟨ops, hrun, hops⟩ := h
  obtain ⟨ops', hrun', hops'⟩ := h'
  refine ⟨ops ++ ops', hrun.append hrun', ?_⟩
  intro op hop
  rcases List.mem_append.mp hop with hop | hop
  · exact hops op hop
  · exact hops' op hop

-- An invariant of the registry that the operations of the kind keep.
theorem mono (h : Follows P s s') (hPQ : ∀ op, P op → Q op) : Follows Q s s' := by
  obtain ⟨ops, hrun, hops⟩ := h
  exact ⟨ops, hrun, fun op hop => hPQ op (hops op hop)⟩

theorem invariant {I : Registry → Prop} (h : Follows P s s')
    (hstep : ∀ {g op g'}, P op → I g → Registry.Step g op g' → I g') (hs : I s.registry) :
    I s'.registry := by
  obtain ⟨ops, hrun, hops⟩ := h
  exact hrun.invariant hstep hops hs

theorem next_le (h : Follows P s s') : s.next ≤ s'.next :=
  h.invariant (I := fun g => s.next ≤ g.next)
    (fun _ hle hstep => Nat.le_trans hle hstep.next_le) (Nat.le_refl _)

end Follows

-- The client takes its own mute away.
def UnmutesItself (s : ServerState) (r : ClientRef) : Event → Prop
  | .Tcp q (.UserState message) =>
      q = r ∧ message.session.getD 0 = (s.get r).sessionId ∧ message.mute = some false
  | _ => False

def UnmutedByAdmin (s : ServerState) (r : ClientRef) : Event → Prop
  | .Admin (.PostMute user false) => s.getClientByName user = some r
  | .Admin (.PostAnticheatUser user .Unblock) => s.getClientByName user = some r
  | _ => False

-- Who asks for a channel, or for a new one.
def mover : Event → Option ClientRef
  | .Tcp r (.UserState message) => message.channelId.map fun _ => r
  | .Tcp r (.ChannelState _) => some r
  | _ => none

-- The events that bring or take clients or channels, or move someone.
def Structural : Event → Prop
  | .Connect .. | .Tcp _ (.ChannelState _) | .Tcp _ (.UserState _) | .CleanRun | .EndLoop _ => True
  | _ => False

-- What an event with a given outcome may do to the registry.
def Causes (s : ServerState) (e : Event) (result : MumbleResult) : Registry.Op → Prop
  | .SetMute r mute => mute = true ∨ s.UnmutesItself r e ∨ s.UnmutedByAdmin r e
  | .Join r _ alive | .Create r _ alive => mover e = some r ∧ alive = !(s.get r).cancelled
  | .FailJoin _ _ => result = .error .ChannelDoesntExist
  | .Add _ | .Drop _ => Structural e
  | _ => True

theorem populated (s : ServerState) (session : UInt32) : s.registry.Populated session := by
  intro hconnected hsize
  have hnil : s.clients.entries = [] := List.eq_nil_of_length_eq_zero hsize
  exact hconnected (AList.lookup_eq_none.mpr (HashIndex.entries_eq_nil_iff.mp hnil session))

theorem follows_disconnect (s : ServerState) (session : UInt32) (hP : P (.Drop session)) :
    Follows P s (s.disconnect session) :=
  Follows.single (.Drop session) (s.populated session) hP (registry_disconnect s session)

theorem registry_endLoop (s : ServerState) (r : ClientRef) :
    (s.endLoop r).registry = s.registry.drop (s.get r).sessionId := by
  have hstopped : (s.modify r fun c =>
      { c with stopped := true, closed := true, finished := true }).registry = s.registry :=
    registry_modify_same fun _ => rfl
  unfold endLoop
  dsimp only
  rw [registry_disconnect, hstopped, get_modify_self]

theorem follows_endLoop (s : ServerState) (r : ClientRef) (hP : ∀ session, P (.Drop session)) :
    Follows P s (s.endLoop r) :=
  Follows.single (.Drop _) (s.populated _) (hP _) (registry_endLoop s r)

theorem registry_stop (s : ServerState) (r : ClientRef) (loop : Loop) :
    (s.stop r loop).registry = s.registry := by
  cases loop with
  | Tcp => exact registry_modify_same (f := fun c => { c with stopped := true }) fun _ => rfl
  | Queue => exact registry_modify_same (f := fun c => { c with closed := true }) fun _ => rfl

-- A turn of a loop that ends well or waits is not counted. Any other one is, and may end
-- the loop.
theorem countFailure_cases (s : ServerState) (r : ClientRef) (loop : Loop) (result : MumbleResult) :
    s.countFailure r loop result = s ∧ (result = .ok () ∨ result = .error .Waiting) ∨
    (∃ e, result = .error e ∧ e ≠ .Waiting) ∧
      (s.countFailure r loop result =
        (s.modify r fun c => { c with badNetCount := c.badNetCount + 1 }) ∧
          ¬(s.get r).badNetCount > 20 ∨
      s.countFailure r loop result =
        (s.modify r fun c => { c with badNetCount := c.badNetCount + 1 }).stop r loop ∧
          (s.get r).badNetCount > 20) := by
  by_cases hwaiting : result = .error .Waiting
  · subst hwaiting
    exact .inl ⟨rfl, .inr rfl⟩
  cases result with
  | ok _ => exact .inl ⟨rfl, .inl rfl⟩
  | error e =>
      have he : e ≠ .Waiting := fun h => hwaiting (h ▸ rfl)
      refine .inr ⟨⟨e, rfl, he⟩, ?_⟩
      have hcount : s.countFailure r loop (.error e) =
          if (s.get r).badNetCount > 20 then
            (s.modify r fun c => { c with badNetCount := c.badNetCount + 1 }).stop r loop
          else s.modify r fun c => { c with badNetCount := c.badNetCount + 1 } := by
        cases e <;> first | rfl | exact absurd rfl he
      rw [hcount]
      by_cases hmany : (s.get r).badNetCount > 20
      · exact .inr ⟨if_pos hmany, hmany⟩
      · exact .inl ⟨if_neg hmany, hmany⟩

theorem registry_countFailure (s : ServerState) (r : ClientRef) (loop : Loop)
    (result : MumbleResult) : (s.countFailure r loop result).registry = s.registry := by
  have hcount : (s.modify r fun c => { c with badNetCount := c.badNetCount + 1 }).registry =
      s.registry := registry_modify_same fun _ => rfl
  rcases countFailure_cases s r loop result with ⟨hsame, -⟩ | ⟨-, ⟨hcounted, -⟩ | ⟨hended, -⟩⟩
  · rw [hsame]
  · rw [hcounted, hcount]
  · rw [hended, registry_stop, hcount]

-- A list of operations, each of which keeps what the others need.
theorem follows_foldl {α : Type} {f : ServerState → α → ServerState} {I : Registry → Prop}
    {l : List α} (hf : ∀ s, ∀ a ∈ l, I s.registry → Follows P s (f s a) ∧ I (f s a).registry)
    (hs : I s.registry) : Follows P s (l.foldl f s) ∧ I (l.foldl f s).registry := by
  induction l generalizing s with
  | nil => exact ⟨.refl s, hs⟩
  | cons a l ih =>
      obtain ⟨hfirst, hkept⟩ := hf s a (List.mem_cons_self ..) hs
      obtain ⟨hrest, hend⟩ := ih (fun s b hb => hf s b (List.mem_cons_of_mem _ hb)) hkept
      exact ⟨hfirst.trans hrest, hend⟩

-- Messages that do not touch the registry.

theorem registry_handlePing (message : PingMessage) :
    (s.handlePing r now message).1.registry = s.registry :=
  (registry_call_same fun c => c.entry_sendMessage _).trans (registry_modify_same fun _ => rfl)

theorem registry_handlePermissionQuery (message : PermissionQuery) :
    (s.handlePermissionQuery r message).1.registry = s.registry :=
  registry_call_same fun c => c.entry_sendMessage _

theorem registry_handleUserStats : (s.handleUserStats r).1.registry = s.registry :=
  registry_call_same fun c => c.entry_sendMessage _

theorem registry_handleVoiceTarget (message : VoiceTargetMessage) :
    (s.handleVoiceTarget r now message).1.registry = s.registry := by
  unfold handleVoiceTarget
  dsimp only
  split_ifs
  · rfl
  · split
    · rfl
    · dsimp only
      rw [registry_modify_same, registry_modify_same] <;> intro c <;> rfl

theorem registry_handleCryptSetup {message : CryptSetup} {result : MumbleResult}
    (h : s.handleCryptSetup r now message = .ok (s', result)) : s'.registry = s.registry := by
  unfold handleCryptSetup at h
  split at h
  · obtain ⟨crypt, -, hret⟩ := Exec.bind_eq_ok.mp h
    cases hret
    exact registry_modify_same fun _ => rfl
  · have hcall := registry_call_same (s := s) (r := r) fun c => c.entry_sendCryptSetup now false
    rw [Except.ok.inj h] at hcall
    exact hcall

-- The position of the speaker is noted if there is one.
theorem notePosition_cases {packet : VoicePacket .ClientBound}
    (h : s.notePosition r now packet = .ok s') :
    s' = s ∨ ∃ x y z, s' = s.modify r fun c =>
      { c with ac := s.anticheat.notePosition now x y z c.ac } := by
  unfold notePosition at h
  split at h
  · split_ifs at h
    · obtain ⟨x, -, h⟩ := Exec.bind_eq_ok.mp h
      obtain ⟨y, -, h⟩ := Exec.bind_eq_ok.mp h
      obtain ⟨z, -, h⟩ := Exec.bind_eq_ok.mp h
      cases h
      exact .inr ⟨x, y, z, rfl⟩
    · cases h
      exact .inl rfl
  · cases h
    exact .inl rfl

-- The single things that the handler of a voice packet does.
inductive VoiceStep (r : ClientRef) (now : Instant) (packet : VoicePacket .ClientBound) :
    ServerState → ServerState → Prop where
  | Position (s : ServerState) (x y z : Float32) : VoiceStep r now packet s
      (s.modify r fun c => { c with ac := s.anticheat.notePosition now x y z c.ac })
  | Stamp (s : ServerState) : VoiceStep r now packet s
      (s.modify r fun c => { c with ac := { c.ac with lastHeardRec := some now } })
  | Hear (s : ServerState) (listener : ClientRef) :
      VoiceStep r now packet s (s.noteHeard r listener now)
  | Send (s : ServerState) (listener : ClientRef) :
      VoiceStep r now packet s (s.trySend listener (.SendVoicePacket packet))
  | Loopback (s : ServerState) {c : Client} {result : MumbleResult}
      (hsend : (s.get r).sendVoicePacket packet = .ok (c, result)) :
      VoiceStep r now packet s (s.set r c)
  | Emission (s : ServerState) (recipients : UInt32) : VoiceStep r now packet s
      (s.modify r fun c => { c with ac := s.anticheat.noteEmission recipients c.ac })

abbrev VoiceSteps (r : ClientRef) (now : Instant) (packet : VoicePacket .ClientBound) :
    ServerState → ServerState → Prop := Relation.ReflTransGen (VoiceStep r now packet)

section Voice

variable {packet : VoicePacket .ClientBound}

-- What each of them does, all of them do.
theorem VoiceSteps.within {R : ServerState → ServerState → Prop}
    (h : VoiceSteps r now packet s s') (hrefl : ∀ s, R s s)
    (htrans : ∀ {s s' s''}, R s s' → R s' s'' → R s s'')
    (hstep : ∀ {s s'}, VoiceStep r now packet s s' → R s s') : R s s' := by
  induction h with
  | refl => exact hrefl _
  | tail _ hlast ih => exact htrans ih (hstep hlast)

theorem sendToAll_steps (recordHeard : Bool) (recipients : UInt32) (listeners : List ClientRef) :
    VoiceSteps r now packet s (s.sendToAll r now recordHeard packet recipients listeners).1 := by
  induction listeners generalizing s recipients with
  | nil => exact .refl
  | cons listener rest ih =>
      unfold sendToAll
      split_ifs
      · exact ih _
      · exact .head (.Hear s listener) (.head (.Send _ listener) (ih _))
      · exact .head (.Send s listener) (ih _)

theorem handleVoicePacket_steps {result : MumbleResult}
    (h : s.handleVoicePacket r now packet = .ok (s', result)) : VoiceSteps r now packet s s' := by
  unfold handleVoicePacket at h
  obtain ⟨s₁, hposition, h⟩ := Exec.bind_eq_ok.mp h
  have hnoted : VoiceSteps r now packet s s₁ := by
    rcases notePosition_cases hposition with rfl | ⟨x, y, z, rfl⟩
    · exact .refl
    · exact .single (.Position s x y z)
  refine hnoted.trans ?_
  split_ifs at h
  · cases h
    exact .refl
  · cases packet with
    | Ping timestamp =>
        cases h
        exact .refl
    | Audio target sessionId seqNum payload positionInfo =>
        dsimp only at h
        split_ifs at h with htarget hrecord
        · obtain ⟨⟨c, res⟩, hsend, h⟩ := Exec.bind_eq_ok.mp h
          cases h
          exact .single (.Loopback s₁ hsend)
        · cases h
          exact .head (.Stamp s₁) ((sendToAll_steps _ 0 _).tail (.Emission _ _))
        · cases h
          exact (sendToAll_steps _ 0 _).tail (.Emission _ _)

theorem registry_noteHeard (speaker listener : ClientRef) :
    (s.noteHeard speaker listener now).registry = s.registry := by
  unfold noteHeard
  exact registry_modify_same fun _ => rfl

theorem VoiceStep.registry (h : VoiceStep r now packet s s') : s'.registry = s.registry := by
  cases h with
  | Position x y z => exact registry_modify_same fun _ => rfl
  | Stamp => exact registry_modify_same fun _ => rfl
  | Hear listener => exact registry_noteHeard r listener
  | Send listener => exact registry_trySend s listener _
  | Loopback hsend => exact registry_set_same (Client.entry_sendVoicePacket hsend)
  | Emission recipients => exact registry_modify_same fun _ => rfl

theorem registry_handleVoicePacket {result : MumbleResult}
    (h : s.handleVoicePacket r now packet = .ok (s', result)) : s'.registry = s.registry :=
  (handleVoicePacket_steps h).within (R := fun s s' => s'.registry = s.registry) (fun _ => rfl)
    (fun h h' => h'.trans h) VoiceStep.registry

end Voice

-- The messages that do.

theorem registry_addListener (s : ServerState) (r : ClientRef) (k : UInt32) :
    (s.addListener r k).registry = (Registry.Op.Listen r k).apply s.registry :=
  registry_alter (g := fun room =>
    { room with listeners := Registry.keep room.listeners (s.get r).sessionId r }) _ k fun c =>
      congrArg (fun listeners => { c.room with listeners })
        (HashIndex.lookup_insertNew_eq (s.get r).sessionId r c.listeners)

theorem registry_removeListener (s : ServerState) (r : ClientRef) (k : UInt32) :
    (s.removeListener r k).registry = (Registry.Op.Unlisten r k).apply s.registry :=
  registry_alter (g := fun room =>
    { room with listeners := Function.update room.listeners (s.get r).sessionId none }) _ k fun c =>
      congrArg (fun listeners => { c.room with listeners })
        (HashIndex.lookup_erase_eq (s.get r).sessionId c.listeners)

-- What a `UserState` does last.
def changeListeners (s : ServerState) (r : ClientRef) (message : UserState) : ServerState :=
  message.listeningChannelRemove.foldl (fun s k => s.removeListener r k)
    (message.listeningChannelAdd.foldl (fun s k => s.addListener r k) s)

theorem follows_changeListeners (message : UserState) (hr : r < s.next)
    (hlisten : ∀ k, P (.Listen r k)) (hunlisten : ∀ k, P (.Unlisten r k)) :
    Follows P s (s.changeListeners r message) := by
  obtain ⟨hadd, hr'⟩ := follows_foldl (s := s) (I := fun g => r < g.next)
    (l := message.listeningChannelAdd) (f := fun s k => s.addListener r k)
    (fun s k _ hr => ⟨Follows.single (.Listen r k) hr (hlisten k) (registry_addListener s r k), hr⟩)
    hr
  exact hadd.trans (follows_foldl (I := fun g => r < g.next)
    (l := message.listeningChannelRemove) (f := fun s k => s.removeListener r k)
    (fun s k _ hr => ⟨Follows.single (.Unlisten r k) hr (hunlisten k)
      (registry_removeListener s r k), hr⟩) hr').1

theorem modify_modify (s : ServerState) (r : ClientRef) (f f' : Client → Client) :
    (s.modify r f).modify r f' = s.modify r fun c => f' (f c) := by
  simp only [modify, get_set_self]
  simp only [set, Function.update_idem]

-- A client's mute flag is written, with other things that no table shows.
theorem follows_mute {f : Client → Client} {b : Bool} (hP : P (.SetMute r b))
    (hf : ∀ c, (f c).entry = { c.entry with mute := b }) : Follows P s (s.modify r f) := by
  refine Follows.single (.SetMute r b) trivial hP ?_
  rw [registry_modify (g := fun e => { e with mute := b }) hf]
  rfl

theorem follows_modify_mute (mute : Option Bool) (hP : ∀ b, mute = some b → P (.SetMute r b)) :
    Follows P s (s.modify r fun c => { c with mute := mute.getD c.mute }) := by
  cases mute with
  | none => exact .of_eq (registry_modify_same fun _ => rfl)
  | some b => exact follows_mute (hP b rfl) fun _ => rfl

theorem follows_modify_deaf (deaf : Option Bool) (hP : ∀ b, P (.SetDeaf r b)) :
    Follows P s (s.modify r fun c => { c with deaf := deaf.getD c.deaf }) := by
  cases deaf with
  | none => exact .of_eq (registry_modify_same fun _ => rfl)
  | some b =>
      refine Follows.single (.SetDeaf r b) trivial (hP b) ?_
      exact registry_modify (g := fun e => { e with deaf := b }) fun _ => rfl

theorem modify_update (s : ServerState) (r : ClientRef) (message : UserState) :
    (s.modify r fun c => c.update message) =
      (s.modify r fun c => { c with mute := message.mute.getD c.mute }).modify r fun c =>
        { c with deaf := message.deaf.getD c.deaf } := by
  rw [modify_modify]
  apply congrArg (s.set r)
  unfold Client.update
  cases message.mute <;> cases message.deaf <;> rfl

theorem running_modify_update (message : UserState) (h : s.registry.Running r) :
    (s.modify r fun c => c.update message).registry.Running r := by
  have hentry : (s.modify r fun c => c.update message).registry = s.registry.setEntry r fun e =>
      { e with mute := message.mute.getD e.mute, deaf := message.deaf.getD e.deaf } := by
    rw [modify_update, modify_modify]
    exact registry_modify fun _ => rfl
  rw [hentry]
  refine ⟨h.1, ?_⟩
  rw [Registry.setEntry_entry_self]
  exact h.2

-- A `UserState` about someone else is ignored. One about the client itself updates it,
-- and stops there if it asks for a channel that does not exist.
theorem handleUserState_cases (s : ServerState) (r : ClientRef) (message : UserState) :
    s.handleUserState r message = (s, .ok ()) ∨
    message.session.getD 0 = (s.get r).sessionId ∧
      ((∃ k, (s.modify r fun c => c.update message).channels.lookup k = none ∧
        s.handleUserState r message =
          ((s.modify r fun c => c.update message).recordChannel r k, .error .ChannelDoesntExist)) ∨
      s.handleUserState r message =
        ((s.modify r fun c => c.update message).changeListeners r message, .ok ()) ∨
      ∃ k, message.channelId = some k ∧
        (s.modify r fun c => c.update message).channels.lookup k ≠ none ∧
        s.handleUserState r message =
          (((s.modify r fun c => c.update message).setClientChannel r k).1.changeListeners r message,
            .ok ())) := by
  unfold handleUserState
  split_ifs with hsession
  · exact .inl rfl
  · refine .inr ⟨not_not.mp hsession, ?_⟩
    dsimp only
    cases message.channelId with
    | none => exact .inr (.inl rfl)
    | some k =>
        dsimp only
        by_cases hlook : (s.modify r fun c => c.update message).channels.lookup k = none
        · refine .inl ⟨k, hlook, ?_⟩
          rw [setClientChannel_none r hlook]
        · refine .inr (.inr ⟨k, rfl, hlook, ?_⟩)
          rw [setClientChannel_some r hlook]
          rfl

theorem follows_handleUserState (message : UserState) (hr : r < s.next) :
    Follows (Causes s (.Tcp r (.UserState message)) (s.handleUserState r message).2) s
      (s.handleUserState r message).1 := by
  rcases handleUserState_cases s r message with hsame | ⟨hsession, hcases⟩
  · rw [hsame]
    exact .refl s
  have hupdate (result : MumbleResult) : Follows (Causes s (.Tcp r (.UserState message)) result) s
      (s.modify r fun c => c.update message) := by
    rw [modify_update]
    refine (follows_modify_mute message.mute ?_).trans
      (follows_modify_deaf message.deaf fun _ => trivial)
    intro b hb
    cases b with
    | true => exact .inl rfl
    | false => exact .inr (.inl ⟨rfl, hsession, hb⟩)
  rcases hcases with ⟨k, hlook, hfailed⟩ | hstayed | ⟨k, hk, hlook, hjoined⟩
  · rw [hfailed]
    exact (hupdate _).trans (Follows.single (.FailJoin r k)
      ⟨hr, registry_channels_eq_none.mpr hlook⟩ rfl (registry_recordChannel _ r k))
  · rw [hstayed]
    exact (hupdate _).trans (follows_changeListeners message hr (fun _ => trivial) fun _ => trivial)
  · rw [hjoined]
    have hjoin : Follows (Causes s (.Tcp r (.UserState message)) (.ok ()))
        (s.modify r fun c => c.update message)
        ((s.modify r fun c => c.update message).setClientChannel r k).1 := by
      refine Follows.single (.Join r k !(s.get r).cancelled) ⟨hr, ?_, ?_⟩
        ⟨by rw [mover, hk]; rfl, rfl⟩ (registry_setClientChannel_some r hlook)
      · exact fun halive => running_modify_update message ⟨hr, Bool.not_eq_eq_eq_not.mp halive⟩
      · exact fun hnone => hlook (registry_channels_eq_none.mp hnone)
    exact ((hupdate _).trans hjoin).trans (follows_changeListeners message
      (Nat.lt_of_lt_of_le hr hjoin.next_le) (fun _ => trivial) fun _ => trivial)

theorem registry_addChannel (s : ServerState) (state : ChannelState)
    (htemporary : state.temporary.getD false = true) :
    (s.addChannel state).1.registry = s.registry.create (s.addChannel state).2.id := by
  have hroom : (s.addChannel state).2.room = ⟨true, fun _ => none, fun _ => none⟩ := by
    unfold addChannel Channel.room Channel.new
    simp only [htemporary, AList.lookup_empty]
  have hchannels : (fun k => ((s.addChannel state).1.channels.lookup k).map Channel.room) =
      Function.update s.registry.channels (s.addChannel state).2.id
        (some ((s.registry.channels (s.addChannel state).2.id).getD
          ⟨true, fun _ => none, fun _ => none⟩)) := by
    funext k
    by_cases hk : k = (s.addChannel state).2.id
    · subst hk
      have hinsert := ChannelMap.lookup_insert_self (m := s.channels) (s.addChannel state).2
      rw [Function.update_self, registry_channels]
      refine (congrArg (Option.map Channel.room) hinsert).trans ?_
      cases s.channels.lookup (s.addChannel state).2.id with
      | none => exact congrArg some hroom
      | some old => rfl
    · rw [Function.update_of_ne hk, registry_channels]
      exact congrArg (Option.map Channel.room) (ChannelMap.lookup_insert_ne _ hk)
  exact congrArg (fun channels => { s.registry with channels }) hchannels

-- The channel is made and everyone is told.
def announceChannel (s : ServerState) (message : ChannelState) : ServerState :=
  (s.addChannel message).1.broadcastMessage
    (.ChannelState (s.addChannel message).2.getChannelState)

-- What a request for a channel has to bring, and to find.
structure Accepts (s : ServerState) (message : ChannelState) : Prop where
  unnumbered : message.channelId = none
  child : message.parent ≠ none
  named : message.name ≠ none
  temporary : message.temporary.getD false = true
  short : (message.name.getD "").utf8ByteSize ≤ 512
  parent : s.channels.contains (message.parent.getD 0) = true
  unused : s.getChannelByName (message.name.getD "") = none

-- A request for a channel is ignored, or the channel is made and joined.
theorem handleChannelState_cases (s : ServerState) (r : ClientRef) (message : ChannelState) :
    s.handleChannelState r message = (s, .ok ()) ∨
    s.Accepts message ∧ s.handleChannelState r message =
      (s.announceChannel message).setClientChannel r (s.addChannel message).2.id := by
  unfold handleChannelState
  dsimp only
  split_ifs with hnumbered hchild hnamed htemporary hshort hparent hunused
  · exact .inl rfl
  · exact .inl rfl
  · exact .inl rfl
  · exact .inl rfl
  · exact .inl rfl
  · exact .inl rfl
  · exact .inl rfl
  · refine .inr ⟨⟨?_, ?_, ?_, ?_, ?_, ?_, ?_⟩, rfl⟩
    · simpa using hnumbered
    · simpa using hchild
    · simpa using hnamed
    · simpa using htemporary
    · exact Nat.le_of_not_lt hshort
    · simpa using hparent
    · simpa using hunused

theorem registry_announceChannel {message : ChannelState}
    (htemporary : message.temporary.getD false = true) :
    (s.announceChannel message).registry = s.registry.create (s.addChannel message).2.id :=
  (registry_broadcastMessage _ _).trans (registry_addChannel s message htemporary)

-- The channel was just put there.
theorem lookup_announceChannel {message : ChannelState}
    (htemporary : message.temporary.getD false = true) :
    (s.announceChannel message).channels.lookup (s.addChannel message).2.id ≠ none := by
  rw [ne_eq, ← registry_channels_eq_none, registry_announceChannel htemporary,
    Registry.create_channels_self]
  exact Option.some_ne_none _

theorem follows_handleChannelState (message : ChannelState) (hr : r < s.next)
    (hP : ∀ k, P (.Create r k !(s.get r).cancelled)) :
    Follows P s (s.handleChannelState r message).1 := by
  rcases handleChannelState_cases s r message with hsame | ⟨⟨-, -, -, htemporary, -, -, -⟩, hmade⟩
  · rw [hsame]
    exact .refl s
  · rw [hmade]
    refine Follows.single (.Create r (s.addChannel message).2.id !(s.get r).cancelled)
      ⟨hr, fun halive => ⟨hr, Bool.not_eq_eq_eq_not.mp halive⟩⟩ (hP _) ?_
    · rw [registry_setClientChannel_some r (lookup_announceChannel htemporary),
        registry_announceChannel htemporary]
      rfl

-- Datagrams.

theorem registry_resetClientCrypt (s : ServerState) (r : ClientRef) (now : Instant) :
    (s.resetClientCrypt r now).1.registry = s.registry.unbind r := by
  have hkept : { s with
      clientsWithoutUdp :=
        HashIndex.insertNew (s.get r).sessionId r s.clientsWithoutUdp }.registry =
      { s.registry with
        withoutUdp := Registry.keep s.registry.withoutUdp (s.registry.entry r).sessionId r } :=
    congrArg (fun withoutUdp => { s.registry with withoutUdp })
      (HashIndex.lookup_insertNew_eq (s.get r).sessionId r s.clientsWithoutUdp)
  have hsocket : ∀ s : ServerState, (s.call r Client.removeUdpSocket).2 =
      (s.get r).udpSocketAddr := fun _ => rfl
  unfold resetClientCrypt Registry.unbind
  dsimp only
  rw [registry_call_same fun c => c.entry_sendCryptSetup now true, registry_releaseSocket,
    registry_call_removeUdpSocket, hkept, hsocket]
  rfl

theorem get_releaseSocket (s : ServerState) (addr : Option SocketAddr) (r : ClientRef) :
    (s.releaseSocket addr).get r = s.get r := by
  cases addr <;> rfl

theorem registry_setClientSocket (s : ServerState) (r : ClientRef) (addr : SocketAddr) :
    { s.setClientSocket r addr with
      clientsWithoutUdp := (s.setClientSocket r addr).clientsWithoutUdp.erase
        ((s.setClientSocket r addr).get r).sessionId }.registry = s.registry.bind r addr := by
  have hmaps (s : ServerState) (session : UInt32) : { s with
      clientsBySocket := HashIndex.insertNew addr r s.clientsBySocket
      clientsWithoutUdp := s.clientsWithoutUdp.erase session }.registry =
      { s.registry with
        bySocket := Registry.keep s.registry.bySocket addr r
        withoutUdp := Function.update s.registry.withoutUdp session none } := by
    have hbySocket := HashIndex.lookup_insertNew_eq addr r s.clientsBySocket
    have hwithoutUdp := HashIndex.lookup_erase_eq session s.clientsWithoutUdp
    simp only [registry, hbySocket, hwithoutUdp]
    rfl
  obtain ⟨released, hdef⟩ : ∃ t, t = (s.modify r fun c =>
      { c with udpSocketAddr := some addr }).releaseSocket (s.get r).udpSocketAddr := ⟨_, rfl⟩
  have hset : s.setClientSocket r addr =
      { released with clientsBySocket := HashIndex.insertNew addr r released.clientsBySocket } := by
    rw [hdef]
    rfl
  have hregistry : released.registry =
      (s.registry.setEntry r fun e => { e with udpSocketAddr := some addr }).release
        (s.get r).udpSocketAddr := by
    rw [hdef, registry_releaseSocket,
      registry_modify (g := fun e => { e with udpSocketAddr := some addr })]
    intro c
    rfl
  have hsession : (released.get r).sessionId = (s.get r).sessionId := by
    rw [hdef, get_releaseSocket, get_modify_self]
  rw [hset]
  refine (hmaps released (released.get r).sessionId).trans ?_
  rw [hsession, hregistry]
  rfl

theorem follows_findClientWithDecrypt {bytes : List UInt8} {addr : SocketAddr}
    {candidates : List ClientRef} {found : Option (ClientRef × VoicePacket .ServerBound)}
    (haddr : s.clientsBySocket.lookup addr = none)
    (hcandidates : ∀ r ∈ candidates, ∃ session, s.clientsWithoutUdp.lookup session = some r)
    (hP : ∀ r, P (.Bind r addr))
    (h : s.findClientWithDecrypt now bytes addr candidates = .ok (s', found)) :
    Follows P s s' := by
  induction candidates generalizing s with
  | nil =>
      cases h
      exact .refl _
  | cons r candidates ih =>
      unfold findClientWithDecrypt at h
      obtain ⟨⟨crypt, result⟩, -, h⟩ := Exec.bind_eq_ok.mp h
      have hcrypt : (s.modify r fun c => { c with crypt }).registry = s.registry :=
        registry_modify_same fun _ => rfl
      cases result with
      | ok packet =>
          cases h
          refine Follows.single (.Bind r addr) ⟨hcandidates r (List.mem_cons_self ..), haddr⟩
            (hP r) ?_
          rw [registry_setClientSocket, hcrypt]
          rfl
      | error e =>
          refine (Follows.of_eq hcrypt).trans (ih haddr ?_ h)
          exact fun q hq => hcandidates q (List.mem_cons_of_mem _ hq)

theorem registry_routePacket {packet : VoicePacket .ServerBound} {result : UdpResult}
    (h : s.routePacket r now packet = .ok (s', result)) : s'.registry = s.registry := by
  unfold routePacket at h
  split at h
  · obtain ⟨⟨crypt, dest⟩, -, h⟩ := Exec.bind_eq_ok.mp h
    cases h
    exact registry_modify_same fun _ => rfl
  · cases h
    exact registry_trySend ..

theorem logged_state (x : ServerState × MumbleResult) : (logged x).1 = x.1 := by
  unfold logged
  split <;> rfl

-- A datagram of a known client is routed, or makes the server start over with the crypt
-- state, or is dropped.
theorem handleKnown_cases {buffer : List UInt8} {result : UdpResult}
    (h : s.handleKnown r now buffer = .ok (s', result)) :
    ∃ crypt decrypted,
      (s.get r).crypt.decrypt .ServerBound now buffer = .ok (crypt, decrypted) ∧
      ((∃ packet, decrypted = .ok packet ∧
        (s.modify r fun c => { c with crypt }).routePacket r now packet = .ok (s', result)) ∨
      s' = (s.modify r fun c => { c with crypt }) ∨
      s' = ((s.modify r fun c => { c with crypt }).resetClientCrypt r now).1) := by
  unfold handleKnown at h
  obtain ⟨⟨crypt, decrypted⟩, hdecrypt, h⟩ := Exec.bind_eq_ok.mp h
  refine ⟨crypt, decrypted, hdecrypt, ?_⟩
  cases decrypted with
  | ok packet => exact .inl ⟨packet, rfl, h⟩
  | error e =>
      dsimp only at h
      split_ifs at h
      · cases h
        exact .inr (.inr (logged_state _))
      · cases h
        exact .inr (.inl rfl)

theorem follows_handleKnown {buffer : List UInt8} {addr : SocketAddr} {result : UdpResult}
    (haddr : s.clientsBySocket.lookup addr = some r) (hP : P (.Unbind r))
    (h : s.handleKnown r now buffer = .ok (s', result)) : Follows P s s' := by
  obtain ⟨crypt, decrypted, -, hcases⟩ := handleKnown_cases h
  have hcrypt : (s.modify r fun c => { c with crypt }).registry = s.registry :=
    registry_modify_same fun _ => rfl
  rcases hcases with ⟨packet, -, hroute⟩ | rfl | rfl
  · exact .of_eq ((registry_routePacket hroute).trans hcrypt)
  · exact .of_eq hcrypt
  · refine Follows.single (.Unbind r) (.inr ⟨addr, haddr⟩) hP ?_
    rw [registry_resetClientCrypt, hcrypt]
    rfl

theorem mem_candidates {order : List ClientRef} (h : r ∈ s.candidates order) :
    ∃ session, s.clientsWithoutUdp.lookup session = some r := by
  unfold candidates at h
  split_ifs at h with hperm
  · exact HashIndex.mem_values.mp (hperm.mem_iff.mp h)
  · exact HashIndex.mem_values.mp h

-- A datagram is dropped or answered, belongs to a known address, or is tried on
-- the clients that have none.
theorem handlePacket_cases {protocolVersion : UInt32} {addr : SocketAddr}
    {datagram : List UInt8} {order : List ClientRef} {result : UdpResult}
    (h : s.handlePacket protocolVersion now addr datagram order = .ok (s', result)) :
    s' = s ∨
    (∃ r, s.clientsBySocket.lookup addr = some r ∧
      s.handleKnown r now (datagram.take UDP_BUFFER_SIZE) = .ok (s', result)) ∨
    (s.clientsBySocket.lookup addr = none ∧ ∃ s₁ found,
      s.findClientWithDecrypt now (datagram.take UDP_BUFFER_SIZE) addr (s.candidates order) =
        .ok (s₁, found) ∧
      (s' = s₁ ∨ ∃ r packet, s₁.routePacket r now packet = .ok (s', result))) := by
  unfold handlePacket at h
  dsimp only at h
  split_ifs at h
  · cases h
    exact .inl rfl
  · split at h
    · cases h
      exact .inl rfl
    · split_ifs at h
      · split at h <;> cases h <;> exact .inl rfl
      · cases hsocket : s.getClientBySocket addr with
        | some r =>
            rw [hsocket] at h
            exact .inr (.inl ⟨r, hsocket, h⟩)
        | none =>
            rw [hsocket] at h
            unfold handleUnknown at h
            obtain ⟨⟨s₁, found⟩, hfind, h⟩ := Exec.bind_eq_ok.mp h
            refine .inr (.inr ⟨hsocket, s₁, found, hfind, ?_⟩)
            cases found with
            | none =>
                cases h
                exact .inl rfl
            | some pair => exact .inr ⟨pair.1, pair.2, h⟩

theorem follows_handlePacket {protocolVersion : UInt32} {addr : SocketAddr}
    {datagram : List UInt8} {order : List ClientRef} {result : UdpResult}
    (hbind : ∀ r, P (.Bind r addr)) (hunbind : ∀ r, P (.Unbind r))
    (h : s.handlePacket protocolVersion now addr datagram order = .ok (s', result)) :
    Follows P s s' := by
  rcases handlePacket_cases h with rfl | ⟨r, haddr, hknown⟩ | ⟨haddr, s₁, found, hfind, hrest⟩
  · exact .refl _
  · exact follows_handleKnown haddr (hunbind r) hknown
  · refine (follows_findClientWithDecrypt haddr (fun _ => mem_candidates) hbind hfind).trans ?_
    rcases hrest with rfl | ⟨r, packet, hpacket⟩
    · exact .refl _
    · exact .of_eq (registry_routePacket hpacket)

-- The clean-up pass.

theorem mem_clientsToRemove_inspectClient {plan : CleanPlan} {session : UInt32} :
    session ∈ (s.inspectClient now plan r).clientsToRemove ↔
      session ∈ plan.clientsToRemove ∨
        (s.get r).TimesOut now ∧ session = (s.get r).sessionId := by
  unfold inspectClient Client.TimesOut
  dsimp only
  split_ifs with hclosed hudp htcp hgood
  · simp only [HashIndex.mem_insertNew, hclosed]
    tauto
  · have hold : ¬(now - (s.get r).lastUdpPing) / NANOS ≤ 30 := Nat.not_le_of_lt hudp
    tauto
  · have hrecent : (now - (s.get r).lastUdpPing) / NANOS ≤ 30 := Nat.le_of_not_lt hudp
    rw [HashIndex.mem_insertNew]
    tauto
  · tauto
  · tauto

theorem mem_clientsToResetCrypt_inspectClient {plan : CleanPlan} {q : ClientRef} :
    r ∈ (s.inspectClient now plan q).clientsToResetCrypt ↔
      r ∈ plan.clientsToResetCrypt ∨ (s.get q).Unheard now ∧ r = q := by
  unfold inspectClient Client.Unheard
  dsimp only
  split_ifs with hclosed hudp htcp hgood
  · simp [hclosed]
  · simp [hclosed, hudp]
  · simp [hclosed, hudp, Nat.not_le_of_lt htcp]
  · simp [hclosed, hudp, Nat.le_of_not_lt htcp, hgood]
  · simp [hclosed, hudp, hgood]

-- Whom the pass removes: those who are on the queue for it, and those who time out.
theorem mem_cleanPlan_remove {session : UInt32} : session ∈ (s.cleanPlan now).clientsToRemove ↔
    session ∈ s.disconnectQueue ∨
      ∃ q ∈ s.clients.values, (s.get q).TimesOut now ∧ session = (s.get q).sessionId := by
  have hfold (refs : List ClientRef) (plan : CleanPlan) :
      session ∈ (refs.foldl (fun plan q => s.inspectClient now plan q) plan).clientsToRemove ↔
        session ∈ plan.clientsToRemove ∨
          ∃ q ∈ refs, (s.get q).TimesOut now ∧ session = (s.get q).sessionId := by
    induction refs generalizing plan with
    | nil => simp
    | cons q refs ih =>
        rw [List.foldl_cons, ih, mem_clientsToRemove_inspectClient]
        simp only [List.mem_cons, exists_eq_or_imp, or_assoc]
  rw [cleanPlan, hfold, HashIndex.mem_foldl_insertNew, or_iff_left (AList.notMem_empty session)]
  rfl

-- Whose crypt state it resets.
theorem mem_cleanPlan_reset : r ∈ (s.cleanPlan now).clientsToResetCrypt ↔
    r ∈ s.clients.values ∧ (s.get r).Unheard now := by
  have hfold (refs : List ClientRef) (plan : CleanPlan) :
      r ∈ (refs.foldl (fun plan q => s.inspectClient now plan q) plan).clientsToResetCrypt ↔
        r ∈ plan.clientsToResetCrypt ∨ r ∈ refs ∧ (s.get r).Unheard now := by
    induction refs generalizing plan with
    | nil => simp
    | cons q refs ih =>
        rw [List.foldl_cons, ih, mem_clientsToResetCrypt_inspectClient, List.mem_cons, or_assoc,
          or_and_right]
        refine or_congr_right (or_congr_left ?_)
        constructor
        · rintro ⟨hunheard, rfl⟩
          exact ⟨rfl, hunheard⟩
        · rintro ⟨rfl, hunheard⟩
          exact ⟨hunheard, rfl⟩
  rw [cleanPlan, hfold]
  simp

theorem andThen_of_ok {x : ServerState × MumbleResult}
    {f : ServerState → ServerState × MumbleResult} (h : x.2 = .ok ()) : andThen x f = f x.1 := by
  obtain ⟨s, result⟩ := x
  cases h
  rfl

theorem andThen_ok {x : ServerState × MumbleResult}
    {f : ServerState → ServerState × MumbleResult} (h : (andThen x f).2 = .ok ()) :
    x.2 = .ok () ∧ andThen x f = f x.1 := by
  obtain ⟨s, result⟩ := x
  cases result with
  | ok _ => exact ⟨rfl, rfl⟩
  | error e => cases h

theorem logged_ok_iff {x : ServerState × MumbleResult} :
    (logged x).2 = .ok () ↔ x.2 ≠ .error .Waiting := by
  unfold logged
  split
  · exact iff_of_false (fun h => nomatch h) fun h => h rfl
  · rename_i hended
    exact iff_of_true rfl hended

-- The resets of the pass that are made: all of them, or those up to one that waits.
theorem resetAll_cases (s : ServerState) (now : Instant) (refs : List ClientRef) :
    ∃ made rest, refs = made ++ rest ∧
      (s.resetAll now refs).1 = made.foldl (fun s r => (s.resetClientCrypt r now).1) s ∧
      ((s.resetAll now refs).2 = .ok () ∧ rest = [] ∨
        (s.resetAll now refs).2 = .error .Waiting) := by
  induction refs generalizing s with
  | nil => exact ⟨[], [], rfl, rfl, .inl ⟨rfl, rfl⟩⟩
  | cons r refs ih =>
      have hstate := logged_state (s.resetClientCrypt r now)
      unfold resetAll
      cases hdone : (logged (s.resetClientCrypt r now)).2 with
      | ok _ =>
          obtain ⟨made, rest, hrefs, hmade, hend⟩ := ih (s.resetClientCrypt r now).1
          refine ⟨r :: made, rest, by rw [hrefs]; rfl, ?_⟩
          rw [← Prod.mk.eta (p := logged (s.resetClientCrypt r now)), hdone, hstate]
          exact ⟨hmade, hend⟩
      | error e =>
          have hwaiting : e = .Waiting := by
            unfold logged at hdone
            split at hdone <;> cases hdone
            rfl
          refine ⟨[r], refs, rfl, ?_⟩
          rw [← Prod.mk.eta (p := logged (s.resetClientCrypt r now)), hdone, hstate, hwaiting]
          exact ⟨rfl, .inr rfl⟩

-- The pass makes resets, and removes the clients unless it waits.
theorem cleanRun_cases (s : ServerState) (now : Instant) :
    ∃ made ⊆ (s.cleanPlan now).clientsToResetCrypt, ∃ t,
      t = made.foldl (fun s r => (s.resetClientCrypt r now).1) { s with disconnectQueue := ∅ } ∧
      (made = (s.cleanPlan now).clientsToResetCrypt ∧
        s.cleanRun now = ((s.cleanPlan now).clientsToRemove.keys.foldl
          (fun s session => s.disconnect session) t, .ok ()) ∨
      s.cleanRun now = (t, .error .Waiting)) := by
  obtain ⟨made, rest, hrefs, hmade, hend⟩ :=
    resetAll_cases { s with disconnectQueue := ∅ } now (s.cleanPlan now).clientsToResetCrypt
  refine ⟨made, hrefs ▸ List.subset_append_left made rest, _, rfl, ?_⟩
  unfold cleanRun
  dsimp only
  rw [← Prod.mk.eta (p := resetAll { s with disconnectQueue := ∅ } now _), hmade]
  rcases hend with ⟨hok, hrest⟩ | hwaiting
  · rw [hok]
    refine .inl ⟨?_, rfl⟩
    rw [hrefs, hrest, List.append_nil]
  · rw [hwaiting]
    exact .inr rfl

theorem follows_resets {made : List ClientRef} (hmade : ∀ r ∈ made, s.registry.Connected r)
    (hunbind : ∀ r, P (.Unbind r)) :
    Follows P s (made.foldl (fun s r => (s.resetClientCrypt r now).1) s) := by
  have hclients (g : Registry) (r : ClientRef) : (g.unbind r).clients = g.clients := rfl
  refine (follows_foldl (I := fun g => g.clients = s.registry.clients) ?_ rfl).1
  intro t r hr hsame
  refine ⟨Follows.single (.Unbind r) (.inl ?_) (hunbind r) (registry_resetClientCrypt t r now), ?_⟩
  · obtain ⟨session, hsession⟩ := hmade r hr
    exact ⟨session, by rw [hsame]; exact hsession⟩
  · rw [registry_resetClientCrypt, hclients, hsame]

theorem follows_cleanRun (hunbind : ∀ r, P (.Unbind r)) (hdrop : ∀ session, P (.Drop session)) :
    Follows P s (s.cleanRun now).1 := by
  obtain ⟨made, hsubset, t, rfl, hend⟩ := cleanRun_cases s now
  have hqueue : Follows P s { s with disconnectQueue := ∅ } := .of_eq rfl
  have hconnected (r : ClientRef) (hr : r ∈ made) : s.registry.Connected r :=
    HashIndex.mem_values.mp (mem_cleanPlan_reset.mp (hsubset hr)).1
  have hresets : Follows P s
      (made.foldl (fun s r => (s.resetClientCrypt r now).1) { s with disconnectQueue := ∅ }) :=
    hqueue.trans (follows_resets hconnected hunbind)
  rcases hend with ⟨-, hdone⟩ | hwaiting
  · rw [hdone]
    refine hresets.trans (follows_foldl (I := fun _ => True) ?_ trivial).1
    exact fun t session _ _ => ⟨follows_disconnect t session (hdrop session), trivial⟩
  · rw [hwaiting]
    exact hresets

-- A new connection.

theorem registry_andThen {x : ServerState × MumbleResult}
    {f : ServerState → ServerState × MumbleResult} {g : Registry} (hx : x.1.registry = g)
    (hf : ∀ s : ServerState, s.registry = g → (f s).1.registry = g) :
    (andThen x f).1.registry = g := by
  obtain ⟨s, result⟩ := x
  cases result with
  | ok _ => exact hf s hx
  | error e => exact hx

theorem registry_sendAll (s : ServerState) (r : ClientRef) (messages : List ServerMessage) :
    (s.sendAll r messages).1.registry = s.registry := by
  induction messages generalizing s with
  | nil => rfl
  | cons message messages ih =>
      refine registry_andThen (registry_call_same fun c => c.entry_sendMessage message) ?_
      intro t ht
      rw [ih, ht]

theorem registry_clientRun (s : ServerState) (r : ClientRef) :
    (s.clientRun r).1.registry = s.registry := by
  have hsend (message : Client → ServerMessage) (t : ServerState) (ht : t.registry = s.registry) :
      (t.call r fun c => c.sendMessage (message c)).1.registry = s.registry :=
    (registry_call_same fun c => c.entry_sendMessage (message c)).trans ht
  refine registry_andThen (hsend (fun _ => .CodecVersion codecVersion) s rfl) fun t ht => ?_
  refine registry_andThen (registry_andThen ?_ fun u hu => ?_) fun t ht => ?_
  · rw [registry_sendAll, ht]
  · rw [registry_sendAll, hu]
  refine registry_andThen (hsend (fun c => .UserState c.getUserState) t ht) fun t ht => ?_
  refine registry_andThen (hsend _ t ht) fun t ht => ?_
  refine registry_andThen (hsend _ t ht) fun t ht => ?_
  rw [registry_broadcastMessage, ht]

end ServerState

-- The counter of the registry is right, and there is room in it.
def Registry.Counted (g : Registry) : Prop := g.active.toNat = g.size ∧ g.size ≤ MAX_CLIENTS

namespace ServerState

variable {s s' s'' : ServerState} {r : ClientRef} {k : UInt32} {now : Instant}
  {P Q : Registry.Op → Prop}

-- The state with the new client in it, muted if it has to be.
def welcome (s : ServerState) (username peerIp : String) (key : Vector UInt8 KEY_SIZE)
    (write : Writer) (now : Instant) : ServerState :=
  let s₁ := (s.addClient username (.default key (.new key) now) write peerIp now).1
  if s₁.bans.isMuted peerIp (namePart username) then s₁.modify s.next (·.setMute true) else s₁

-- A client that could not be told what there is is disconnected again.
def settled (r : ClientRef) : ServerState × MumbleResult → ServerState × MumbleResult
  | (s, .ok ()) => (s, .ok ())
  | (s, .error .Waiting) => (s, .error .Waiting)
  | (s, .error _) => (s.endLoop r, .ok ())

section Connect

variable (username peerIp : String) (key : Vector UInt8 KEY_SIZE) (write : Writer)

-- What happens to a connection that is not refused.
theorem handleNewClient_admitted (hroom : s.activeClients.toNat < MAX_CLIENTS)
    (hwelcome : s.bans.isBanned peerIp (namePart username) = none) :
    s.handleNewClient username peerIp key write now =
      settled s.next ((s.welcome username peerIp key write now).clientRun s.next) := by
  rw [handleNewClient, if_neg (Nat.not_le.mpr hroom), hwelcome]
  rfl

-- A connection is refused, served or waits, or is lost while the client is told what
-- there is.
theorem handleNewClient_cases :
    (s.handleNewClient username peerIp key write now).1 = s ∨
    s.activeClients.toNat < MAX_CLIENTS ∧
      (((s.handleNewClient username peerIp key write now).2 = .ok () ∨
          (s.handleNewClient username peerIp key write now).2 = .error .Waiting) ∧
        (s.welcome username peerIp key write now).clientRun s.next =
          s.handleNewClient username peerIp key write now ∨
      ∃ t e, (s.welcome username peerIp key write now).clientRun s.next = (t, .error e) ∧
        s.handleNewClient username peerIp key write now = (t.endLoop s.next, .ok ())) := by
  by_cases hfull : MAX_CLIENTS ≤ s.activeClients.toNat
  · exact .inl (by rw [handleNewClient, if_pos hfull])
  · by_cases hbanned : (s.bans.isBanned peerIp (namePart username)).isSome
    · exact .inl (by rw [handleNewClient, if_neg hfull, if_pos hbanned])
    · refine .inr ⟨Nat.lt_of_not_le hfull, ?_⟩
      rw [handleNewClient_admitted username peerIp key write (Nat.lt_of_not_le hfull)
        (Option.not_isSome_iff_eq_none.mp hbanned)]
      generalize (s.welcome username peerIp key write now).clientRun s.next = ran
      obtain ⟨t, result⟩ := ran
      cases result with
      | ok _ => exact .inl ⟨.inl rfl, rfl⟩
      | error e => cases e <;> first | exact .inl ⟨.inr rfl, rfl⟩ | exact .inr ⟨t, _, rfl, rfl⟩

variable {username peerIp key write}

-- There is a session id left as long as there is room for a client.
theorem getFreeSessionId_fresh (hcounted : s.registry.Counted)
    (hroom : s.activeClients.toNat < MAX_CLIENTS) : s.getFreeSessionId.2 ∉ s.clients := by
  apply getFreeSessionId_notMem
  have hsize : s.activeClients.toNat = s.clients.entries.length := hcounted.1
  unfold MAX_CLIENTS at hroom
  omega

theorem follows_welcome (hcounted : s.registry.Counted)
    (hroom : s.activeClients.toNat < MAX_CLIENTS) (hadd : ∀ session, P (.Add session))
    (hmute : ∀ r, P (.SetMute r true)) :
    Follows P s (s.welcome username peerIp key write now) := by
  have hfresh := getFreeSessionId_fresh hcounted hroom
  have hadded : Follows P s
      (s.addClient username (.default key (.new key) now) write peerIp now).1 :=
    Follows.single (.Add s.getFreeSessionId.2) ⟨AList.lookup_eq_none.mpr hfresh, hroom⟩
      (hadd _) (registry_addClient username _ write peerIp now hfresh)
  unfold welcome
  dsimp only
  split_ifs
  · exact hadded.trans (follows_mute (hmute _) fun _ => rfl)
  · exact hadded

theorem get_welcome_ne {q : ClientRef} (h : q ≠ s.next) :
    (s.welcome username peerIp key write now).get q = s.get q := by
  have hadded : (s.addClient username (.default key (.new key) now) write peerIp now).1.get q =
      s.get q := get_set_ne _ h
  unfold welcome
  dsimp only
  split_ifs
  · rw [get_modify_ne _ h]
    exact hadded
  · exact hadded

theorem get_welcome_self (s : ServerState) (username peerIp : String)
    (key : Vector UInt8 KEY_SIZE) (write : Writer) (now : Instant) :
    ∃ mute, (s.welcome username peerIp key write now).get s.next =
      { Client.new username s.getFreeSessionId.2 0 (.default key (.new key) now) peerIp write
        now with mute } := by
  have hadded : (s.addClient username (.default key (.new key) now) write peerIp now).1.get s.next =
      .new username s.getFreeSessionId.2 0 (.default key (.new key) now) peerIp write now :=
    get_set_self ..
  unfold welcome
  dsimp only
  split_ifs
  · rw [get_modify_self, hadded]
    exact ⟨true, rfl⟩
  · rw [hadded]
    exact ⟨false, rfl⟩

theorem channels_welcome : (s.welcome username peerIp key write now).channels = s.channels := by
  unfold welcome
  dsimp only
  split_ifs <;> rfl

theorem follows_handleNewClient (hcounted : s.registry.Counted)
    (hadd : ∀ session, P (.Add session)) (hmute : ∀ r, P (.SetMute r true))
    (hdrop : ∀ session, P (.Drop session)) :
    Follows P s (s.handleNewClient username peerIp key write now).1 := by
  rcases handleNewClient_cases username peerIp key write with
    hsame | ⟨hroom, ⟨-, hrun⟩ | ⟨t, e, hrun, hlost⟩⟩
  · rw [hsame]
    exact .refl s
  · have hregistry := registry_clientRun (s.welcome username peerIp key write now) s.next
    rw [hrun] at hregistry
    exact (follows_welcome hcounted hroom hadd hmute).trans (.of_eq hregistry)
  · have hregistry := registry_clientRun (s.welcome username peerIp key write now) s.next
    rw [hrun] at hregistry
    rw [hlost]
    exact ((follows_welcome hcounted hroom hadd hmute).trans (.of_eq hregistry)).trans
      (follows_endLoop t _ hdrop)

end Connect

-- Calls from outside.

theorem follows_applyAction (action : UserAction)
    (hmute : ∀ b, b = true ∨ action = .Unblock → P (.SetMute r b)) :
    Follows P s (s.applyAction r action) := by
  have hbans (bans : BanList) : Follows P s { s with bans } := .of_eq rfl
  cases action with
  | Block =>
      unfold applyAction
      exact (hbans _).trans (follows_mute (hmute true (.inl rfl)) fun _ => rfl)
  | Unblock =>
      unfold applyAction
      exact (hbans _).trans (follows_mute (hmute false (.inr rfl)) fun _ => rfl)
  | Kick => exact .of_eq rfl
  | Reset =>
      apply Follows.of_eq
      exact registry_modify_same (f := fun c => { c with ac := c.ac.resetCounters }) fun _ => rfl
  | Ban => exact .of_eq rfl

-- A request about a client that is looked for by name.
theorem onNamed_holds {Q : ServerState → Prop} {user : String}
    {f : ServerState → ClientRef → ServerState} (hs : Q s)
    (hf : ∀ r, s.getClientByName user = some r → Q (f s r)) : Q (s.onNamed user f) := by
  unfold onNamed
  cases hname : s.getClientByName user with
  | none => exact hs
  | some r => exact hf r hname

theorem follows_handleAdmin (request : AdminRequest) (hdeaf : ∀ r b, P (.SetDeaf r b))
    (hmute : ∀ r b, b = true ∨ s.UnmutedByAdmin r (.Admin request) → P (.SetMute r b)) :
    Follows P s (s.handleAdmin request) := by
  cases request with
  | PostMute user mute =>
      refine onNamed_holds (Q := Follows P s) (.refl s) fun r hr => ?_
      refine follows_mute (hmute r mute ?_) fun _ => rfl
      cases mute with
      | true => exact .inl rfl
      | false => exact .inr hr
  | PostDeaf user deaf =>
      refine onNamed_holds (Q := Follows P s) (.refl s) fun r _ => ?_
      refine Follows.single (.SetDeaf r deaf) trivial (hdeaf r deaf) ?_
      exact registry_modify (f := fun c => c.setDeaf deaf) (g := fun e => { e with deaf := deaf })
        fun _ => rfl
  | PostAnticheatUser user action =>
      refine onNamed_holds (Q := Follows P s) (.refl s) fun r hr => follows_applyAction action ?_
      rintro b (rfl | rfl)
      · exact hmute r true (.inl rfl)
      · exact hmute r b (.inr hr)
  | PostAnticheatUnban id => exact .of_eq rfl
  | PostAnticheatConfig config => exact .of_eq rfl
  | PostAnticheatClear =>
      apply Follows.of_eq
      refine registry_foldl (fun t r => ?_) s s.clients.values
      exact registry_modify_same fun _ => rfl
  | PostHeardClear sessionId =>
      unfold handleAdmin
      dsimp only
      split
      · exact .of_eq (registry_modify_same fun _ => rfl)
      · exact .refl s

theorem follows_flag (reason : String) (hP : P (.SetMute r true)) :
    Follows P s (s.flag r now reason) := by
  unfold flag
  dsimp only
  split_ifs
  · exact .refl s
  · exact .of_eq (registry_modify_same fun _ => rfl)
  · have hflagged : Follows P s (s.modify r fun c =>
        { c with ac := { c.ac with lastFlag := now, flags := c.ac.flags + 1 } }) :=
      .of_eq (registry_modify_same fun _ => rfl)
    split
    · exact hflagged
    · exact hflagged.trans (follows_mute hP fun _ => rfl)
    · exact hflagged.trans (.of_eq rfl)
    · exact hflagged.trans (.of_eq rfl)

-- What a frame of the stream sets off: the handler that runs, and the state after it.
inductive FrameStep (s : ServerState) (r : ClientRef) (now : Instant) :
    TcpFrame → ServerState → MumbleResult → Prop where
  -- there is nothing to do, or the frame is refused
  | Nothing (frame : TcpFrame) (result : MumbleResult) : FrameStep s r now frame s result
  | Voice {payload : List UInt8} {packet : VoicePacket .ClientBound} {s' : ServerState}
      {result : MumbleResult} (h : s.handleVoicePacket r now packet = .ok (s', result)) :
      FrameStep s r now (.UDPTunnel payload) s' result
  | Ping (message : PingMessage) : FrameStep s r now (.Ping message)
      (s.handlePing r now message).1 (s.handlePing r now message).2
  | ChannelState (message : ChannelState) : FrameStep s r now (.ChannelState message)
      (s.handleChannelState r message).1 (s.handleChannelState r message).2
  | CryptSetup {message : CryptSetup} {s' : ServerState} {result : MumbleResult}
      (h : s.handleCryptSetup r now message = .ok (s', result)) :
      FrameStep s r now (.CryptSetup message) s' result
  | PermissionQuery (message : PermissionQuery) : FrameStep s r now (.PermissionQuery message)
      (s.handlePermissionQuery r message).1 (s.handlePermissionQuery r message).2
  | UserState (message : UserState) : FrameStep s r now (.UserState message)
      (s.handleUserState r message).1 (s.handleUserState r message).2
  | VoiceTarget (message : VoiceTargetMessage) : FrameStep s r now (.VoiceTarget message)
      (s.handleVoiceTarget r now message).1 (s.handleVoiceTarget r now message).2
  | UserStats (message : UserStats) : FrameStep s r now (.UserStats message)
      (s.handleUserStats r).1 (s.handleUserStats r).2

theorem handleFrame_step {frame : TcpFrame} {result : MumbleResult}
    (h : s.handleFrame r now frame = .ok (s', result)) : FrameStep s r now frame s' result := by
  cases frame with
  | Version | Authenticate | Malformed | Unsupported kind | Unexpected kind | Lost =>
      cases h
      exact .Nothing _ _
  | UDPTunnel payload =>
      unfold handleFrame at h
      obtain ⟨decoded, -, h⟩ := Exec.bind_eq_ok.mp h
      cases decoded with
      | error e =>
          cases h
          exact .Nothing _ _
      | ok packet => exact .Voice h
  | Ping message =>
      cases h
      exact .Ping message
  | ChannelState message =>
      have hstep : FrameStep s r now (.ChannelState message) (s.handleChannelState r message).1
          (s.handleChannelState r message).2 := .ChannelState message
      rw [Except.ok.inj h] at hstep
      exact hstep
  | CryptSetup message => exact .CryptSetup h
  | PermissionQuery message =>
      cases h
      exact .PermissionQuery message
  | UserState message =>
      have hstep : FrameStep s r now (.UserState message) (s.handleUserState r message).1
          (s.handleUserState r message).2 := .UserState message
      rw [Except.ok.inj h] at hstep
      exact hstep
  | VoiceTarget message =>
      have hstep : FrameStep s r now (.VoiceTarget message) (s.handleVoiceTarget r now message).1
          (s.handleVoiceTarget r now message).2 := .VoiceTarget message
      rw [Except.ok.inj h] at hstep
      exact hstep
  | UserStats message =>
      cases h
      exact .UserStats message

theorem follows_handleFrame {frame : TcpFrame} {result : MumbleResult}
    (hr : r < s.next) (h : s.handleFrame r now frame = .ok (s', result)) :
    Follows (Causes s (.Tcp r frame) result) s s' := by
  cases handleFrame_step h with
  | Nothing => exact .refl s
  | Voice h => exact .of_eq (registry_handleVoicePacket h)
  | Ping message => exact .of_eq (registry_handlePing message)
  | ChannelState message => exact follows_handleChannelState message hr fun _ => ⟨rfl, rfl⟩
  | CryptSetup h => exact .of_eq (registry_handleCryptSetup h)
  | PermissionQuery message => exact .of_eq (registry_handlePermissionQuery message)
  | UserState message => exact follows_handleUserState message hr
  | VoiceTarget message => exact .of_eq (registry_handleVoiceTarget message)
  | UserStats message => exact .of_eq registry_handleUserStats

-- A message of the queue is routed, sent to the client as a packet, or nothing is left to do.
theorem handleQueued_cases {message : ClientMessage} {result : MumbleResult}
    (h : s.handleQueued r now message = .ok (s', result)) :
    (∃ packet, s.handleVoicePacket r now packet = .ok (s', result)) ∨
    (∃ packet c, (s.get r).sendVoicePacket packet = .ok (c, result) ∧ s' = s.set r c) ∨ s' = s := by
  cases message with
  | RouteVoicePacket packet => exact .inl ⟨packet, h⟩
  | SendVoicePacket packet =>
      unfold handleQueued at h
      obtain ⟨⟨c, sent⟩, hsend, h⟩ := Exec.bind_eq_ok.mp h
      cases h
      exact .inr (.inl ⟨packet, c, hsend, rfl⟩)
  | SendMessage message =>
      cases h
      exact .inr (.inr rfl)

theorem registry_handleQueued {message : ClientMessage} {result : MumbleResult}
    (h : s.handleQueued r now message = .ok (s', result)) : s'.registry = s.registry := by
  rcases handleQueued_cases h with ⟨packet, hvoice⟩ | ⟨packet, c, hsend, rfl⟩ | rfl
  · exact registry_handleVoicePacket hvoice
  · exact registry_set_same (Client.entry_sendVoicePacket hsend)
  · rfl

theorem loops_lt {loop : Loop} (h : s.loops r loop = true) : r < s.next := by
  cases loop <;> exact of_decide_eq_true (Bool.and_eq_true_iff.mp h).1

theorem readFrame_cases {frame : TcpFrame} {result : MumbleResult}
    (h : s.readFrame r now frame = .ok (s', result)) :
    (s.loops r .Tcp = true ∧ ∃ s₁, s.handleFrame r now frame = .ok (s₁, result) ∧
      s' = s₁.countFailure r .Tcp result) ∨ s' = s ∧ result = .ok () := by
  unfold readFrame at h
  split_ifs at h with hloops
  · obtain ⟨⟨s₁, handled⟩, hframe, h⟩ := Exec.bind_eq_ok.mp h
    cases h
    exact .inl ⟨hloops, s₁, hframe, rfl⟩
  · cases h
    exact .inr ⟨rfl, rfl⟩

theorem consume_cases {result : MumbleResult} (h : s.consume r now = .ok (s', result)) :
    (s.loops r .Queue = true ∧ ∃ message rest s₁, (s.get r).queue = message :: rest ∧
      (s.modify r fun c => { c with queue := rest }).handleQueued r now message =
        .ok (s₁, result) ∧ s' = s₁.countFailure r .Queue result) ∨ s' = s ∧ result = .ok () := by
  unfold consume at h
  split_ifs at h with hloops
  · split at h
    · cases h
      exact .inr ⟨rfl, rfl⟩
    · rename_i message rest hqueue
      obtain ⟨⟨s₁, handled⟩, hqueued, h⟩ := Exec.bind_eq_ok.mp h
      cases h
      exact .inl ⟨hloops, message, rest, s₁, hqueue, hqueued, rfl⟩
  · cases h
    exact .inr ⟨rfl, rfl⟩

-- What an event does to the registry, in operations that the event accounts for.
theorem step_follows {e : Event} {result : MumbleResult} (hcounted : s.registry.Counted)
    (h : s.step now e = .ok (s', result)) : Follows (Causes s e result) s s' := by
  cases e with
  | Connect username peerIp key write =>
      have hconnect : Follows (Causes s (.Connect username peerIp key write) result) s
          (s.handleNewClient username peerIp key write now).1 :=
        follows_handleNewClient hcounted (fun _ => trivial) (fun _ => .inl rfl) fun _ => trivial
      rw [Except.ok.inj h] at hconnect
      exact hconnect
  | Tcp r frame =>
      rcases readFrame_cases h with ⟨hloops, s₁, hframe, rfl⟩ | ⟨rfl, -⟩
      · exact (follows_handleFrame (loops_lt hloops) hframe).trans
          (.of_eq (registry_countFailure ..))
      · exact .refl _
  | Consume r =>
      rcases consume_cases h with ⟨-, message, rest, s₁, -, hqueued, rfl⟩ | ⟨rfl, -⟩
      · refine .of_eq ((registry_countFailure ..).trans ?_)
        exact (registry_handleQueued hqueued).trans (registry_modify_same fun _ => rfl)
      · exact .refl _
  | Udp addr datagram order =>
      obtain ⟨⟨s₁, handled⟩, hpacket, h⟩ := Exec.bind_eq_ok.mp h
      cases h
      exact follows_handlePacket (fun _ => trivial) (fun _ => trivial) hpacket
  | CleanRun =>
      have hclean : Follows (Causes s .CleanRun result) s (s.cleanRun now).1 :=
        follows_cleanRun (fun _ => trivial) fun _ => trivial
      rw [Except.ok.inj h] at hclean
      exact hclean
  | Quit r loop =>
      cases h
      split_ifs
      · exact .of_eq (registry_stop s r loop)
      · exact .refl s
  | EndLoop r =>
      cases h
      split_ifs
      · exact follows_endLoop s r fun _ => trivial
      · exact .refl s
  | Network r write link =>
      cases h
      exact .of_eq (registry_modify_same fun _ => rfl)
  | Admin request =>
      cases h
      refine follows_handleAdmin request (fun _ _ => trivial) ?_
      rintro r b (hb | hadmin)
      · exact .inl hb
      · exact .inr (.inr hadmin)
  | Flag r reason =>
      cases h
      split_ifs
      · exact follows_flag reason (.inl rfl)
      · exact .refl s

end ServerState

end Mumble
