import Mumble.Registry.Entries
import Mumble.Views.Connect
import Mumble.Acts

/-!
How a session comes back. The counter of the sessions is a number of 32 bits, and a
channel keeps listeners that have left.
-/

namespace Mumble

open Mumble.Lib

namespace Registry

variable {g : Registry} {r ghost : ClientRef} {session other : UInt32}

-- The root channel has a listener under a session that none of its members has.
def Haunted (g : Registry) (session : UInt32) (ghost : ClientRef) : Prop :=
  ∃ room, g.channels 0 = some room ∧ room.temporary = false ∧ room.members session = none ∧
    room.listeners session = some ghost

namespace Haunted

theorem leave (h : g.Haunted session ghost) (other k : UInt32) :
    (g.leave other k).Haunted session ghost := by
  obtain ⟨room, hroom, hpermanent, hmember, hlistener⟩ := h
  by_cases hk : k = 0
  · subst hk
    refine ⟨_, leave_stays hroom (.inl hpermanent), hpermanent, ?_, hlistener⟩
    by_cases hsession : session = other
    · subst hsession
      exact Function.update_self ..
    · exact (Function.update_of_ne hsession _ _).trans hmember
  · exact ⟨room, (leave_channels_ne (Ne.symm hk)).trans hroom, hpermanent, hmember, hlistener⟩

theorem drop (h : g.Haunted session ghost) (other : UInt32) :
    (g.drop other).Haunted session ghost := by
  cases hlook : g.clients other with
  | none => rwa [drop_none hlook]
  | some r =>
      rw [drop_some hlook]
      exact leave (g := g.detach r other) h _ _

-- A client under the session that becomes a member of the root channel is there
-- beside the listener.
theorem join (h : g.Haunted session ghost) (hsession : (g.entry r).sessionId = session)
    (hroot : (g.entry r).channelId = 0) :
    ∃ room, (g.join r 0).channels 0 = some room ∧ room.members session = some r ∧
      room.listeners session = some ghost := by
  obtain ⟨room, hroom, -, hmember, hlistener⟩ := h
  have hown : ((g.setEntry r fun e => { e with channelId := 0 }).entry r).sessionId = session := by
    rw [setEntry_entry_self]
    exact hsession
  refine ⟨{ room with members := keep room.members session r }, ?_, keep_self hmember, hlistener⟩
  unfold Registry.join
  rw [if_pos hroot, enter, setRoom_channels_self, setEntry_channels, hroom, hown]
  rfl

end Haunted

-- A client that has come is found under its session, and the next one does not change
-- that.

theorem add_clients (h : g.clients session = none) :
    (g.add session).clients session = some g.next := keep_self h

theorem add_entry (g : Registry) (session : UInt32) :
    (g.add session).entry g.next = ⟨session, 0, false, false, false, none⟩ :=
  Function.update_self ..

theorem add_entry_ne (h : r ≠ g.next) : (g.add session).entry r = g.entry r :=
  Function.update_of_ne h _ _

-- Two clients come, and the first becomes a member of the root channel, where there is
-- a listener under its session.
structure Twins (g : Registry) (session : UInt32) (ghost r q : ClientRef) : Prop where
  speaker : g.clients (g.entry r).sessionId = some r
  unmuted : (g.entry r).mute = false
  other : q ≠ r
  connected : g.clients session = some q
  hears : (g.entry q).deaf = false
  both : ∃ room, g.channels 0 = some room ∧ room.members session = some q ∧
    room.listeners session = some ghost

theorem Haunted.twins (h : g.Haunted session ghost) (hfree : g.clients session = none)
    (hother : (g.add session).clients other = none) :
    (((g.add session).add other).join g.next 0).Twins session ghost (g.next + 1) g.next := by
  have hne : g.next ≠ g.next + 1 := Nat.ne_of_lt (Nat.lt_succ_self _)
  have hfirst : ((g.add session).add other).entry g.next =
      ⟨session, 0, false, false, false, none⟩ := by
    rw [add_entry_ne hne, add_entry]
  have hsecond : ((g.add session).add other).entry (g.next + 1) =
      ⟨other, 0, false, false, false, none⟩ := add_entry (g.add session) other
  have hroom : ((g.add session).add other).Haunted session ghost := h
  have hboth := hroom.join (congrArg Entry.sessionId hfirst) (congrArg Entry.channelId hfirst)
  have hentry : (((g.add session).add other).join g.next 0).entry (g.next + 1) =
      ⟨other, 0, false, false, false, none⟩ := by
    rw [join_entry, setEntry_entry_ne _ hne.symm, hsecond]
  have hclients : (((g.add session).add other).join g.next 0).clients =
      ((g.add session).add other).clients := by
    obtain ⟨channels, hjoin⟩ := join_tables ((g.add session).add other) g.next 0
    rw [hjoin, setEntry_clients]
  refine ⟨?_, ?_, hne, ?_, ?_, hboth⟩
  · rw [hentry, hclients]
    exact add_clients hother
  · rw [hentry]
  · rw [hclients]
    exact keep_mono (add_clients hfree)
  · rw [join_entry, setEntry_entry_self, hfirst]

end Registry

namespace ServerState

variable {s : ServerState} {r : ClientRef} {now : Instant}

-- What a connection depends on beside the clients.
def records (s : ServerState) : UInt32 × BanList := (s.sessionCount, s.bans)

theorem Does.records {A : ClientRef → Client → Deed → Prop} {s' : ServerState}
    (h : s.Does A (· = .Channels) s') : s'.records = s.records :=
  Prod.ext h.frame.sessionCount (h.frame.bans nofun)

-- The deeds that do not end the task which reads a client's stream.
def reads (d : Deed) : Prop := d ≠ .Stop ∧ d ≠ .Finish

theorem stopped_apply (c : Client) {d : Deed} (h : reads d) : (d.apply c).stopped = c.stopped := by
  cases d with
  | Stop => exact absurd rfl h.1
  | Finish => exact absurd rfl h.2
  | _ => rfl

theorem Does.stopped {K : Area → Prop} {s' : ServerState} (h : s.Does (fun _ _ d => reads d) K s')
    (q : ClientRef) : (s'.get q).stopped = (s.get q).stopped :=
  (h.clients q).field Client.stopped fun {c _} hd => stopped_apply c hd

theorem lenient_reads (now : Instant) : Lenient now fun _ _ d => reads d := by
  intro q c d hd
  refine ⟨?_, ?_⟩ <;> rintro rfl <;> exact hd

theorem does_greet (s : ServerState) (r : ClientRef) :
    s.Does (fun _ _ d => reads d) (· = .Channels) (s.clientRun r).1 :=
  does_clientRun (lenient_reads 0) (fun _ _ _ _ _ => ⟨nofun, nofun⟩) s r
    fun _ _ _ => ⟨nofun, nofun⟩

-- A greeting gets out if the connection takes it.

theorem clientRun_broken (h : (s.get r).send = .error .Io) : s.clientRun r = (s, .error .Io) := by
  have hsend : (s.get r).sendMessage (.CodecVersion codecVersion) = (s.get r, .error .Io) := by
    unfold Client.sendMessage
    rw [h]
  have hfirst : (s.call r fun c => c.sendMessage (.CodecVersion codecVersion)) = (s, .error .Io) := by
    simp only [call, hsend, set_get]
  unfold clientRun
  rw [hfirst]
  rfl

theorem call_open (send : Client → Client × MumbleResult) {message : ServerMessage}
    (hsend : send (s.get r) = (s.get r).sendMessage message) (h : (s.get r).send = .ok ()) :
    s.call r send = (s.write r [message], .ok ()) := by
  have hmessage : (s.get r).sendMessage message =
      ({ s.get r with sent := (s.get r).sent ++ [.SendMessage message] }, .ok ()) := by
    unfold Client.sendMessage
    rw [h]
  unfold call
  rw [hsend, hmessage]
  rfl

theorem send_write (s : ServerState) (r : ClientRef) (messages : List ServerMessage) :
    ((s.write r messages).get r).send = (s.get r).send := by
  rw [get_write_self]
  rfl

theorem sendAll_open (h : (s.get r).send = .ok ()) (messages : List ServerMessage) :
    s.sendAll r messages = (s.write r messages, .ok ()) := by
  induction messages generalizing s with
  | nil => rw [write_nil, sendAll]
  | cons message messages ih =>
      rw [sendAll, call_open _ rfl h]
      exact (ih ((send_write ..).trans h)).trans (by rw [write_write]; rfl)

theorem clientRun_open (h : (s.get r).send = .ok ()) : (s.clientRun r).2 = .ok () := by
  have hopen (messages : List ServerMessage) : ((s.write r messages).get r).send = .ok () :=
    (send_write s r messages).trans h
  unfold clientRun syncClientAndChannels
  rw [call_open _ rfl h]
  simp only [andThen, sendAll_open (hopen _), write_write]
  rw [call_open Client.sendMyUserState rfl (hopen _)]
  simp only [write_write]
  rw [call_open Client.sendServerSync rfl (hopen _)]
  simp only [write_write]
  rw [call_open Client.sendServerConfig rfl (hopen _)]

-- A connection where nobody is banned or muted.
section Connect

variable (username peerIp : String) (key : Vector UInt8 KEY_SIZE) (write : Writer) (now : Instant)
  (hbans : s.bans.bans = [])
include hbans

theorem welcome_unmuted : s.welcome username peerIp key write now =
    (s.addClient username (.default key (.new key) now) write peerIp now).1 := by
  have hnobody : (s.addClient username (.default key (.new key) now) write peerIp now).1.bans.bans =
      [] := hbans
  unfold welcome BanList.isMuted
  dsimp only
  rw [hnobody]
  rfl

theorem records_welcome :
    (s.welcome username peerIp key write now).records = s.getFreeSessionId.1.records := by
  rw [welcome_unmuted username peerIp key write now hbans]
  rfl

variable (hroom : s.activeClients.toNat < MAX_CLIENTS)
include hroom

theorem handleNewClient_unbanned : s.handleNewClient username peerIp key write now =
    settled s.next ((s.welcome username peerIp key write now).clientRun s.next) := by
  refine handleNewClient_admitted username peerIp key write hroom ?_
  unfold BanList.isBanned
  rw [hbans]
  rfl

variable (hsound : s.registry.Sound)
include hsound

theorem registry_welcome : (s.welcome username peerIp key write now).registry =
    s.registry.add s.getFreeSessionId.2 := by
  rw [welcome_unmuted username peerIp key write now hbans]
  exact registry_addClient username _ write peerIp now (getFreeSessionId_fresh hsound.counted hroom)

-- The peer does not take a byte.
theorem connect_broken :
    (s.after now (.Connect username peerIp key .Broken)).registry =
      (s.registry.add s.getFreeSessionId.2).drop s.getFreeSessionId.2 ∧
    (s.after now (.Connect username peerIp key .Broken)).records = s.getFreeSessionId.1.records := by
  obtain ⟨mute, hself⟩ := get_welcome_self s username peerIp key .Broken now
  have hsend : ((s.welcome username peerIp key .Broken now).get s.next).send = .error .Io := by
    rw [hself]
    rfl
  have hsession : ((s.welcome username peerIp key .Broken now).get s.next).sessionId =
      s.getFreeSessionId.2 := by
    rw [hself]
    rfl
  have hlost : s.after now (.Connect username peerIp key .Broken) =
      (s.welcome username peerIp key .Broken now).endLoop s.next := by
    refine after_ok (congrArg Except.ok ?_)
    rw [handleNewClient_unbanned username peerIp key .Broken now hbans hroom,
      clientRun_broken hsend]
    rfl
  have hends : (s.welcome username peerIp key .Broken now).Does (fun _ _ _ => True) (· = .Channels)
      ((s.welcome username peerIp key .Broken now).endLoop s.next) := by
    refine does_endLoop (lenient_all now) tells_all ?_ _ _ fun _ => trivial
    rfl
  rw [hlost, registry_endLoop, hsession, hends.records]
  exact ⟨by rw [registry_welcome username peerIp key .Broken now hbans hroom hsound],
    records_welcome username peerIp key .Broken now hbans⟩

-- The peer takes all it is written.
theorem connect_open :
    (s.after now (.Connect username peerIp key .Open)).registry =
      s.registry.add s.getFreeSessionId.2 ∧
    (s.after now (.Connect username peerIp key .Open)).records = s.getFreeSessionId.1.records ∧
    (s.after now (.Connect username peerIp key .Open)).loops s.next .Tcp = true := by
  obtain ⟨mute, hself⟩ := get_welcome_self s username peerIp key .Open now
  have hsend : ((s.welcome username peerIp key .Open now).get s.next).send = .ok () := by
    rw [hself]
    rfl
  have hserved : s.after now (.Connect username peerIp key .Open) =
      ((s.welcome username peerIp key .Open now).clientRun s.next).1 := by
    refine after_ok (congrArg Except.ok ?_)
    rw [handleNewClient_unbanned username peerIp key .Open now hbans hroom]
    have hgreeted := clientRun_open hsend
    revert hgreeted
    generalize (s.welcome username peerIp key .Open now).clientRun s.next = greeted
    rintro hgreeted
    obtain ⟨t, result⟩ := greeted
    obtain rfl : result = .ok () := hgreeted
    rfl
  have hgreets := does_greet (s.welcome username peerIp key .Open now) s.next
  have hregistry : ((s.welcome username peerIp key .Open now).clientRun s.next).1.registry =
      s.registry.add s.getFreeSessionId.2 := by
    rw [registry_clientRun, registry_welcome username peerIp key .Open now hbans hroom hsound]
  rw [hserved]
  refine ⟨hregistry, ?_, ?_⟩
  · rw [hgreets.records, records_welcome username peerIp key .Open now hbans]
  · have hnext : ((s.welcome username peerIp key .Open now).clientRun s.next).1.next = s.next + 1 :=
      congrArg Registry.next hregistry
    rw [loops, hgreets.stopped, hself, hnext]
    exact Bool.and_eq_true_iff.mpr ⟨decide_eq_true (Nat.lt_succ_self _), rfl⟩

end Connect

-- Nobody is connected, and the first client still listens.
structure Vacant (s : ServerState) : Prop where
  reachable : s.Reachable
  bans : s.bans.bans = []
  clients : s.clients.entries = []
  haunted : s.registry.Haunted 1 0

namespace Vacant

theorem size (h : s.Vacant) : s.registry.size = 0 := congrArg List.length h.clients

theorem room (h : s.Vacant) : s.activeClients.toNat < MAX_CLIENTS := by
  have hcounted : s.activeClients.toNat = s.registry.size := h.reachable.sound.counted.1
  rw [hcounted, h.size]
  decide

theorem free (h : s.Vacant) (x : UInt32) : x ∉ s.clients := HashIndex.entries_eq_nil_iff.mp h.clients x

theorem getFreeSessionId (h : s.Vacant) :
    s.getFreeSessionId = ({ s with sessionCount := s.sessionCount + 1 }, s.sessionCount) := by
  unfold ServerState.getFreeSessionId
  rw [freeId_of_unused (by decide) (decide_eq_false (h.free s.sessionCount))]

-- A connection that breaks at once moves the counter on.
theorem connect (h : s.Vacant) (username peerIp : String) (key : Vector UInt8 KEY_SIZE)
    (now : Instant) :
    (s.after now (.Connect username peerIp key .Broken)).Vacant ∧
      (s.after now (.Connect username peerIp key .Broken)).sessionCount = s.sessionCount + 1 := by
  obtain ⟨hregistry, hrecords⟩ :=
    connect_broken username peerIp key now h.bans h.room h.reachable.sound
  rw [h.getFreeSessionId] at hregistry hrecords
  obtain ⟨hcount, hbans⟩ := Prod.ext_iff.mp hrecords
  refine ⟨⟨h.reachable.after _ _, ?_, ?_, ?_⟩, hcount⟩
  · exact (congrArg BanList.bans hbans).trans h.bans
  · refine HashIndex.entries_eq_nil_iff.mpr fun x => ?_
    have hlook : (s.after now (.Connect username peerIp key .Broken)).clients.lookup x =
        ((s.registry.add s.sessionCount).drop s.sessionCount).clients x :=
      congrArg (fun g : Registry => g.clients x) hregistry
    rw [← AList.lookup_eq_none, hlook, Registry.drop_clients]
    by_cases hx : x = s.sessionCount
    · subst hx
      exact Function.update_self ..
    · rw [Function.update_of_ne hx]
      exact (Registry.keep_ne hx).trans (AList.lookup_eq_none.mpr (h.free x))
  · rw [hregistry]
    exact Registry.Haunted.drop (g := s.registry.add s.sessionCount) h.haunted _

theorem advance (h : s.Vacant) (n : Nat) :
    ∃ s', Vacant s' ∧ s'.sessionCount = s.sessionCount + UInt32.ofNat n := by
  induction n with
  | zero => exact ⟨s, h, (UInt32.add_zero _).symm⟩
  | succ n ih =>
      obtain ⟨s', hs', hcount⟩ := ih
      obtain ⟨hnext, hmoved⟩ := hs'.connect "eve" "10.0.0.1" (Vector.replicate KEY_SIZE 1) 0
      refine ⟨_, hnext, hmoved.trans ?_⟩
      rw [hcount, UInt32.ofNat_add, UInt32.add_assoc]
      rfl

end Vacant

-- The first client listens to the root channel and leaves.
def sampleLeft : List (Instant × Event) :=
  [(0, .Connect "eve" "10.0.0.1" (Vector.replicate KEY_SIZE 1) .Open),
    (0, .Tcp 0 (.UserState { sampleUserState 1 with listeningChannelAdd := [0] })),
    (0, .Admin (.PostAnticheatUser "eve" .Kick)), (0, .CleanRun)]

theorem vacant_sampleLeft : (sampleServer.afterAll sampleLeft).Vacant := by
  refine ⟨reachable_sample _, by decide +kernel, by decide +kernel, ?_⟩
  have hroot : ((sampleServer.afterAll sampleLeft).channels.lookup 0).map
      (fun c => (c.temporary, c.clients.lookup 1, c.listeners.lookup 1)) =
        some (false, none, some 0) := by decide +kernel
  obtain ⟨channel, hchannel, hroot⟩ := Option.map_eq_some_iff.mp hroot
  obtain ⟨hpermanent, hroot⟩ := Prod.ext_iff.mp hroot
  obtain ⟨hmember, hlistener⟩ := Prod.ext_iff.mp hroot
  refine ⟨channel.room, ?_, hpermanent, hmember, hlistener⟩
  rw [registry_channels, hchannel]
  rfl

-- The counter comes round to the session of the client that still listens.
theorem session_returns : ∃ s, Vacant s ∧ s.sessionCount = 1 := by
  obtain ⟨s, hs, hcount⟩ := vacant_sampleLeft.advance 4294967295
  refine ⟨s, hs, ?_⟩
  rw [hcount]
  decide +kernel

-- The task that reads a client's stream goes on when others do something.
theorem loops_after {q : ClientRef} {e : Event} (h : s.Reachable)
    (hother : ∀ result c d, s.Allows now e result q c d → reads d) (hloops : s.loops q .Tcp = true) :
    (s.after now e).loops q .Tcp = true := by
  rcases s.after_cases now e with ⟨-, hsame⟩ | ⟨result, -, hstep⟩
  · rwa [hsame]
  · rw [loops, Bool.and_eq_true, decide_eq_true_eq, Bool.not_eq_true'] at hloops ⊢
    obtain ⟨hq, hreads⟩ := hloops
    refine ⟨Nat.lt_of_lt_of_le hq (next_le_step h.sound.indexed hstep.step), ?_⟩
    refine step_keeps (I := fun p c => p = q → c.stopped = false) h.sound.indexed hstep.step
      ?_ (fun _ _ _ _ hc => hc) ?_ ?_ q rfl
    · exact fun _ _ _ hnew => absurd hnew (Nat.ne_of_gt hq)
    · rintro p c d hd hc rfl
      exact (stopped_apply c (hother result c d hd)).trans (hc rfl)
    · rintro p rfl
      exact hreads

theorem after_tcp {frame : TcpFrame} {s' : ServerState} (hloops : s.loops r .Tcp = true)
    (h : s.handleFrame r now frame = .ok (s', .ok ())) : s.after now (.Tcp r frame) = s' := by
  refine after_ok ?_
  simp only [step, readFrame, if_pos hloops, h, Exec.ok_bind]
  rfl

-- A `UserState` of a client that asks for a channel.
def sampleJoin (session k : UInt32) : UserState := ⟨some session, none, some k, none, none, none, [], []⟩

theorem after_join {session k : UInt32} (hloops : s.loops r .Tcp = true)
    (hsession : (s.get r).sessionId = session) (hchannel : s.channels.lookup k ≠ none) :
    (s.after now (.Tcp r (.UserState (sampleJoin session k)))).registry = s.registry.join r k := by
  have hupdate : (s.modify r fun c => c.update (sampleJoin session k)) = s := set_get s r
  have hown : ¬(sampleJoin session k).session.getD 0 ≠ (s.get r).sessionId := not_not.mpr hsession.symm
  have hjoin : s.handleUserState r (sampleJoin session k) = ((s.setClientChannel r k).1, .ok ()) := by
    unfold handleUserState
    rw [if_neg hown, hupdate]
    dsimp only [sampleJoin]
    rw [setClientChannel_some r hchannel]
    rfl
  have hframe : s.handleFrame r now (.UserState (sampleJoin session k)) =
      .ok ((s.setClientChannel r k).1, .ok ()) := congrArg Except.ok hjoin
  rw [after_tcp hloops hframe, registry_setClientChannel_some r hchannel]

-- Two clients come when the session is free again. The first is given it, and the
-- second another one.
theorem exists_arrivals : ∃ (s s' : ServerState) (other : UInt32), s.Vacant ∧ s'.Reachable ∧
    s'.registry = (s.registry.add 1).add other ∧ (s.registry.add 1).clients other = none ∧
    s'.loops s.registry.next .Tcp = true ∧ s'.loops (s.registry.next + 1) .Tcp = true := by
  obtain ⟨s, hvacant, hcount⟩ := session_returns
  have hfirst := connect_open "bob" "10.0.0.2" (Vector.replicate KEY_SIZE 2) 0 hvacant.bans
    hvacant.room hvacant.reachable.sound
  have hreachable : (s.after 0 (.Connect "bob" "10.0.0.2" (Vector.replicate KEY_SIZE 2)
    .Open)).Reachable := hvacant.reachable.after _ _
  rw [hvacant.getFreeSessionId] at hfirst
  generalize s.after 0 (.Connect "bob" "10.0.0.2" (Vector.replicate KEY_SIZE 2) .Open) = s₁
    at hfirst hreachable
  obtain ⟨hregistry, hrecords, hloops⟩ := hfirst
  have hbans : s₁.bans.bans = [] :=
    (congrArg BanList.bans (Prod.ext_iff.mp hrecords).2).trans hvacant.bans
  have hadded : s₁.registry = s.registry.add 1 := hregistry.trans (congrArg s.registry.add hcount)
  have hroom : s₁.activeClients.toNat < MAX_CLIENTS := by
    have hcounted : s₁.activeClients.toNat = s₁.registry.size := hreachable.sound.counted.1
    have hsize : s₁.registry.size = s.registry.size + 1 := congrArg Registry.size hadded
    rw [hcounted, hsize, hvacant.size]
    decide
  have hnext : s₁.next = s.next + 1 := congrArg Registry.next hadded
  obtain ⟨hsecond, -, hloops'⟩ := connect_open "ann" "10.0.0.3" (Vector.replicate KEY_SIZE 3) 0 hbans
    hroom hreachable.sound
  rw [hadded] at hsecond
  rw [hnext] at hloops'
  refine ⟨s, _, s₁.getFreeSessionId.2, hvacant, hreachable.after 0 _, hsecond, ?_, ?_, hloops'⟩
  · rw [← hadded]
    exact AList.lookup_eq_none.mpr (getFreeSessionId_fresh hreachable.sound.counted hroom)
  · refine loops_after hreachable (fun result c d hd => ⟨?_, ?_⟩) hloops
    · rintro rfl
      rcases hd with ⟨frame, hevent⟩ | hevent <;> cases hevent
    · rintro rfl
      rcases hd with hevent | ⟨hnew, -⟩
      · cases hevent
      · exact absurd (hnew.trans hnext) (Nat.ne_of_lt (Nat.lt_succ_self _))

-- The one with the session becomes a member of the root channel, where the client that
-- had it before listens.
theorem exists_twins : ∃ (s : ServerState) (r q : ClientRef), s.Reachable ∧ q ≠ 0 ∧
    s.loops r .Tcp = true ∧ s.registry.Twins 1 0 r q := by
  obtain ⟨s, s', other, hvacant, hreachable, hregistry, hother, hloops, hloops'⟩ :=
    exists_arrivals
  have hpositive : 0 < s.registry.next := by
    obtain ⟨room, hroom, -, -, hlistener⟩ := hvacant.haunted
    exact (hvacant.reachable.keyed (k := 0) ⟨room, hroom, .inr hlistener⟩).1
  have hentry : s'.registry.entry s.registry.next = ⟨1, 0, false, false, false, none⟩ := by
    rw [hregistry, Registry.add_entry_ne (Nat.ne_of_lt (Nat.lt_succ_self _)), Registry.add_entry]
  have hchannel : s'.channels.lookup 0 ≠ none := by
    obtain ⟨room, hroom, -⟩ := hvacant.haunted
    have hthere : s'.registry.channels 0 = some room := by
      rw [hregistry]
      exact hroom
    intro hnone
    rw [registry_channels_eq_none.mpr hnone] at hthere
    cases hthere
  have hsession : (s'.get s.registry.next).sessionId = 1 := congrArg Entry.sessionId hentry
  have hjoined : (s'.after 0 (.Tcp s.registry.next (.UserState (sampleJoin 1 0)))).registry =
      ((s.registry.add 1).add other).join s.registry.next 0 := by
    rw [after_join hloops hsession hchannel, hregistry]
  have htwins := hvacant.haunted.twins (AList.lookup_eq_none.mpr (hvacant.free 1)) hother
  rw [← hjoined] at htwins
  refine ⟨_, _, _, hreachable.after 0 _, Nat.ne_of_gt hpositive, ?_, htwins⟩
  refine loops_after hreachable (fun result c d hd => ⟨?_, ?_⟩) hloops'
  · rintro rfl
    rcases hd with ⟨frame, hevent⟩ | hevent
    · exact absurd (Event.Tcp.inj hevent).1 (Nat.ne_of_lt (Nat.lt_succ_self _))
    · cases hevent
  · rintro rfl
    rcases hd with hevent | ⟨-, username, peerIp, key, write, hevent⟩ <;> cases hevent

end ServerState

end Mumble
