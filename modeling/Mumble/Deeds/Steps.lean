import Mumble.Deeds

namespace Mumble

open Mumble.Lib

-- As a client is when it is made.
def Client.Fresh (c : Client) : Prop :=
  ∃ username session key peerIp write now mute, c =
    { Client.new username session 0 (.default key (.new key) now) peerIp write now with mute }

-- The slots that can be set.
def VoiceTargetMessage.Valid (message : VoiceTargetMessage) : Prop :=
  ¬(message.id.getD 0 < 1 ∨ message.id.getD 0 ≥ 31)

def VoiceTargetMessage.keys (message : VoiceTargetMessage) : List UInt64 :=
  (ServerState.fillTarget message.targets).2

namespace ServerState

variable {s s' : ServerState} {r : ClientRef} {now : Instant}

-- A datagram decrypts to the packet under the key of the client, as that stands.
def Authenticates (s : ServerState) (now : Instant) (datagram : List UInt8) (r : ClientRef)
    (packet : VoicePacket .ServerBound) : Prop :=
  ∃ crypt, (s.get r).crypt.decrypt .ServerBound now (datagram.take UDP_BUFFER_SIZE) =
    .ok (crypt, .ok packet)

-- A packet of the client as the others get it: with the client's own session.
def relayed (s : ServerState) (r : ClientRef) (packet : VoicePacket .ServerBound) :
    VoicePacket .ClientBound :=
  packet.intoClientBound (s.get r).sessionId s.removePositionalData

-- The event brings a packet from the client, through its stream or in a datagram.
def Says (s : ServerState) (now : Instant) (r : ClientRef) (packet : VoicePacket .ClientBound) :
    Event → Prop
  | .Tcp q (.UDPTunnel payload) => q = r ∧ ∃ said,
      decodeVoicePacket .ServerBound payload = .ok (.ok said) ∧ packet = s.relayed r said
  | .Udp _ datagram _ => ∃ said, s.Authenticates now datagram r said ∧ packet = s.relayed r said
  | _ => False

-- The event passes a packet of the client on: the packet has just come through its
-- stream, or has waited in its queue since it came in a datagram.
def PassesOn (s : ServerState) (now : Instant) (r : ClientRef) (packet : VoicePacket .ClientBound) :
    Event → Prop
  | .Tcp q frame => s.Says now r packet (.Tcp q frame)
  | .Consume q => q = r ∧ ∃ rest, (s.get r).queue = .RouteVoicePacket packet :: rest
  | _ => False

-- An administrator blocks the client or takes the block away.
def SetsExempt (s : ServerState) (e : Event) (q : ClientRef) (exempt : Bool) : Prop :=
  ∃ user action, e = .Admin (.PostAnticheatUser user action) ∧ s.getClientByName user = some q ∧
    action.exempts = some exempt

-- An administrator mutes the client or unmutes it, or it does so itself.
def SetsMute (s : ServerState) (e : Event) (q : ClientRef) (mute : Bool) : Prop :=
  s.SetsExempt e q (!mute) ∨
    (∃ user, e = .Admin (.PostMute user mute) ∧ s.getClientByName user = some q) ∨
    ∃ message, e = .Tcp q (.UserState message) ∧ message.mute = some mute

-- The counters of the client are set back.
def Resets (s : ServerState) (q : ClientRef) : Event → Prop
  | .Admin (.PostAnticheatUser user .Reset) => s.getClientByName user = some q
  | .Admin .PostAnticheatClear => q ∈ s.clients.values
  | _ => False

-- The client sets one of its slots.
def Registers (s : ServerState) (q : ClientRef) (e : Event) : Prop :=
  ∃ message, e = .Tcp q (.VoiceTarget message) ∧ s.loops q .Tcp = true ∧ message.Valid

-- What a deed takes. The routine ones are always there.
def Allows (s : ServerState) (now : Instant) (e : Event) (result : MumbleResult) (q : ClientRef)
    (c : Client) : Deed → Prop
  | .Write (.UDPTunnel bytes) => ∃ packet, bytes = encodeVoicePacket packet [] ∧
      (s.PassesOn now q packet e ∧ (s.get q).mute = false ∨
        e = .Consume q ∧ ∃ rest, (s.get q).queue = .SendVoicePacket packet :: rest)
  | .Write message => message.isNews = true →
      q = s.next ∧ ∃ username peerIp key write, e = .Connect username peerIp key write
  | .Push message => c.queue.length < QUEUE_CAPACITY ∧
      match message with
      | .RouteVoicePacket packet =>
          (∃ addr datagram order, e = .Udp addr datagram order) ∧ s.Says now q packet e
      | .SendVoicePacket packet =>
          c.deaf = false ∧ ∃ r, s.PassesOn now r packet e ∧ (s.get r).mute = false
      | .SendMessage message => message.isNews = true ∧ Structural e
  | .Position ac time _ _ _ => ac = s.anticheat ∧ time = now ∧
      ∃ packet, s.PassesOn now q packet e ∧ packet.position.isSome
  | .Hear _ time _ _ _ => time = now ∧ ∃ r packet, s.PassesOn now r packet e
  | .Record ac time keys => ac = s.anticheat ∧ time = now ∧ ∃ message,
      e = .Tcp q (.VoiceTarget message) ∧ s.loops q .Tcp = true ∧ message.Valid ∧ keys = message.keys
  | .Reset => s.Resets q e
  | .Forget => ∃ session, e = .Admin (.PostHeardClear session)
  | .Exempt exempt => s.SetsExempt e q exempt
  | .Flag time => time = now ∧ (∃ reason, e = .Flag q reason) ∧
      FLAG_COOLDOWN ≤ now - c.ac.lastFlag
  | .Mute mute => s.SetsMute e q mute ∨ (∃ reason, e = .Flag q reason) ∧ c.ac.exempt = false
  | .Deafen _ => (∃ r message, e = .Tcp r (.UserState message)) ∨
      ∃ user deaf, e = .Admin (.PostDeaf user deaf)
  | .Charge .. => False
  | .Bind addr => ∃ datagram order packet, e = .Udp addr datagram order ∧
      s.Authenticates now datagram q packet
  | .Fail => (∃ error, result = .error error ∧ error ≠ .Waiting) ∧
      (e = .Consume q ∨ ∃ frame, e = .Tcp q frame)
  | .Stop => (∃ frame, e = .Tcp q frame) ∨ e = .Quit q .Tcp
  | .Close => e = .Consume q ∨ e = .Quit q .Queue
  | .Finish => e = .EndLoop q ∨
      q = s.next ∧ ∃ username peerIp key write, e = .Connect username peerIp key write
  | d => d.Routine now c

-- The parts of the state beside the clients that an event may change.
def Touches (e : Event) : Area → Prop
  | .Channels => Structural e
  | .Bans => (∃ request, e = .Admin request) ∨ ∃ r reason, e = .Flag r reason
  | .Settings => ∃ config, e = .Admin (.PostAnticheatConfig config)

theorem lenient_allows (s : ServerState) (now : Instant) (e : Event) (result : MumbleResult) :
    Lenient now (s.Allows now e result) := by
  intro q c d hd
  cases d with
  | Write message =>
      cases message with
      | UDPTunnel bytes => exact absurd hd id
      | Ping | ServerSync | CryptSetup | PermissionQuery | CodecVersion | UserStats
      | ServerConfig => exact fun hnews => nomatch hnews
      | ChannelRemove | ChannelState | UserRemove | UserState => cases hd
  | Push | Position | Hear | Record | Reset | Forget | Exempt | Charge | Flag | Mute | Deafen | Bind
  | Fail | Stop | Close | Finish => exact absurd hd id
  | _ => exact hd

theorem tells_allows (s : ServerState) (now : Instant) {e : Event} (result : MumbleResult)
    (he : Structural e) : Tells (s.Allows now e result) :=
  fun _ _ _ hnews hroom => ⟨hroom, hnews, he⟩

section Step

variable {e : Event} {result : MumbleResult}

-- A packet that the event passes on for a client.
theorem does_passedOn {packet : VoicePacket .ClientBound} {t : ServerState}
    {outcome : MumbleResult} (hspoken : s.PassesOn now r packet e) (hac : t.anticheat = s.anticheat)
    (hmute : (t.get r).mute = (s.get r).mute)
    (h : t.handleVoicePacket r now packet = .ok (s', outcome)) :
    t.Does (s.Allows now e result) (Touches e) s' := by
  refine does_handleVoicePacket (s.lenient_allows now e result) ?_ ?_ ?_ ?_ h
  · exact fun c x y z hposition => ⟨hac, rfl, packet, hspoken, hposition⟩
  · exact fun hspeaks q c hroom hdeaf => ⟨hroom, hdeaf, r, hspoken, hmute.symm.trans hspeaks⟩
  · exact fun hspeaks c => ⟨packet, rfl, .inl ⟨hspoken, hmute.symm.trans hspeaks⟩⟩
  · exact fun _ _ _ _ _ _ => ⟨rfl, r, packet, hspoken⟩

theorem does_handleFrame {frame : TcpFrame} {outcome : MumbleResult}
    (hloops : s.loops r .Tcp = true) (h : s.handleFrame r now frame = .ok (s', outcome)) :
    s.Does (s.Allows now (.Tcp r frame) result) (Touches (.Tcp r frame)) s' := by
  have hA := s.lenient_allows now (.Tcp r frame) result
  cases frame with
  | UDPTunnel payload =>
      unfold handleFrame at h
      obtain ⟨decoded, hdecode, h⟩ := Exec.bind_eq_ok.mp h
      cases decoded with
      | error e =>
          cases h
          exact .refl s
      | ok packet => exact does_passedOn ⟨rfl, packet, hdecode, rfl⟩ rfl rfl h
  | CryptSetup message => exact does_handleCryptSetup hA h
  | Version | Authenticate | Malformed | Lost | Unsupported kind | Unexpected kind =>
      cases h
      exact .refl s
  | Ping message =>
      cases h
      exact does_handlePing hA s r message
  | PermissionQuery message =>
      cases h
      exact does_handlePermissionQuery hA s r message
  | UserStats message =>
      cases h
      exact does_handleUserStats hA s r
  | ChannelState message =>
      have hdoes := does_handleChannelState hA (s.tells_allows now result trivial)
        (K := Touches (.Tcp r (.ChannelState message))) trivial s r message
      rw [Except.ok.inj h] at hdoes
      exact hdoes
  | UserState message =>
      have hdoes := does_handleUserState hA (s.tells_allows now result trivial)
        (K := Touches (.Tcp r (.UserState message))) trivial s r message
        (fun c mute hmute => .inl (.inr (.inr ⟨message, rfl, hmute⟩)))
        fun _ _ => .inl ⟨r, message, rfl⟩
      rw [Except.ok.inj h] at hdoes
      exact hdoes
  | VoiceTarget message =>
      have hdoes := does_handleVoiceTarget hA (K := Touches (.Tcp r (.VoiceTarget message)))
        s r message fun hvalid c => ⟨rfl, rfl, message, rfl, hloops, hvalid, rfl⟩
      rw [Except.ok.inj h] at hdoes
      exact hdoes

-- A message that was taken from the queue.
theorem does_handleQueued {message : ClientMessage} {rest : List ClientMessage}
    {outcome : MumbleResult} (hqueue : (s.get r).queue = message :: rest)
    (h : (s.modify r fun c => { c with queue := rest }).handleQueued r now message =
      .ok (s', outcome)) :
    (s.modify r fun c => { c with queue := rest }).Does (s.Allows now (.Consume r) result)
      (Touches (.Consume r)) s' := by
  cases message with
  | RouteVoicePacket packet =>
      refine does_passedOn ⟨rfl, rest, hqueue⟩ rfl ?_ h
      rw [get_modify_self]
  | SendVoicePacket packet =>
      unfold handleQueued at h
      obtain ⟨⟨c, sent⟩, hsend, h⟩ := Exec.bind_eq_ok.mp h
      cases h
      exact does_sendVoicePacket (s.lenient_allows now (.Consume r) result)
        ⟨packet, rfl, .inr ⟨rfl, rest, hqueue⟩⟩ hsend
  | SendMessage message =>
      cases h
      exact .refl _

theorem nodup_candidates (hindexed : s.registry.Indexed) (order : List ClientRef) :
    (s.candidates order).Nodup := by
  have hvalues : s.clientsWithoutUdp.values.Nodup := by
    refine HashIndex.nodup_values (fun r => (s.get r).sessionId) fun session r hr => ?_
    exact (hindexed.connected (hindexed.withoutUdp hr)).2
  unfold candidates
  split_ifs with hperm
  · exact hperm.nodup_iff.mpr hvalues
  · exact hvalues

theorem handlePacket_handled {protocolVersion : UInt32} {addr : SocketAddr} {datagram : List UInt8}
    {order : List ClientRef} {sentBack : UdpResult}
    (h : s.handlePacket protocolVersion now addr datagram order = .ok (s', sentBack)) :
    s' = s ∨ (∃ r, s.handleKnown r now (datagram.take UDP_BUFFER_SIZE) = .ok (s', sentBack)) ∨
      s.handleUnknown now addr (datagram.take UDP_BUFFER_SIZE) order = .ok (s', sentBack) := by
  unfold handlePacket at h
  dsimp only at h
  split_ifs at h
  · cases h
    exact .inl rfl
  · split at h
    · cases h
      exact .inl rfl
    · split_ifs at h
      · split at h <;> cases h <;> exact .inl rfl
      · split at h
        · exact .inr (.inl ⟨_, h⟩)
        · exact .inr (.inr h)

theorem does_handlePacket {protocolVersion : UInt32} {addr : SocketAddr} {datagram : List UInt8}
    {order : List ClientRef} {sentBack : UdpResult} (hindexed : s.registry.Indexed)
    (h : s.handlePacket protocolVersion now addr datagram order = .ok (s', sentBack)) :
    s.Does (s.Allows now (.Udp addr datagram order) result) (Touches (.Udp addr datagram order))
      s' := by
  have hA := s.lenient_allows now (.Udp addr datagram order) result
  have hroute (r : ClientRef) (crypt : CryptState) (packet : VoicePacket .ServerBound)
      (hdecrypt : (s.get r).crypt.decrypt .ServerBound now (datagram.take UDP_BUFFER_SIZE) =
        .ok (crypt, .ok packet)) (c : Client) (hroom : c.queue.length < QUEUE_CAPACITY) :
      s.Allows now (.Udp addr datagram order) result r c
        (.Push (.RouteVoicePacket (s.relayed r packet))) :=
    ⟨hroom, ⟨addr, datagram, order, rfl⟩, packet, ⟨crypt, hdecrypt⟩, rfl⟩
  rcases handlePacket_handled h with rfl | ⟨r, hknown⟩ | hunknown
  · exact .refl _
  · exact does_handleKnown hA (hroute r) hknown
  · unfold handleUnknown at hunknown
    obtain ⟨⟨s₁, found⟩, hfind, hrest⟩ := Exec.bind_eq_ok.mp hunknown
    obtain ⟨hfound, hdecrypts⟩ := does_findClientWithDecrypt hA (nodup_candidates hindexed order)
      (fun r _ crypt packet hdecrypt c => ⟨datagram, order, packet, rfl, crypt, hdecrypt⟩) hfind
    refine hfound.trans ?_
    cases found with
    | none =>
        cases hrest
        exact .refl _
    | some pair =>
        obtain ⟨r, packet⟩ := pair
        obtain ⟨-, crypt, hdecrypt⟩ := hdecrypts r packet rfl
        refine does_routePacket hA ?_ hrest
        rw [hfound.sessionId, hfound.frame.strips]
        exact hroute r crypt packet hdecrypt

theorem does_handleNewClient (username peerIp : String) (key : Vector UInt8 KEY_SIZE)
    (write : Writer) :
    (s.handleNewClient username peerIp key write now).1 = s ∨
      (s.welcome username peerIp key write now).Does
        (s.Allows now (.Connect username peerIp key write) result)
        (Touches (.Connect username peerIp key write))
        (s.handleNewClient username peerIp key write now).1 := by
  have hA := s.lenient_allows now (.Connect username peerIp key write) result
  have hnews : Tells (s.Allows now (.Connect username peerIp key write) result) :=
    s.tells_allows now result trivial
  have hrun : (s.welcome username peerIp key write now).Does
      (s.Allows now (.Connect username peerIp key write) result)
      (Touches (.Connect username peerIp key write))
      ((s.welcome username peerIp key write now).clientRun s.next).1 := by
    refine does_clientRun hA hnews _ s.next fun message c hmessage => ?_
    cases message with
    | ChannelState | ChannelRemove | UserState | UserRemove =>
        exact fun _ => ⟨rfl, username, peerIp, key, write, rfl⟩
    | UDPTunnel | Ping | ServerSync | CryptSetup | PermissionQuery | CodecVersion | UserStats
    | ServerConfig => cases hmessage
  rcases handleNewClient_cases username peerIp key write with
    hsame | ⟨-, ⟨-, hserved⟩ | ⟨t, error, hlost, hend⟩⟩
  · exact .inl hsame
  · rw [hserved] at hrun
    exact .inr hrun
  · rw [hlost] at hrun
    rw [hend]
    exact .inr (hrun.trans (does_endLoop hA hnews trivial t _
      fun _ => .inr ⟨rfl, username, peerIp, key, write, rfl⟩))

-- The state in which the deeds of an event begin: with a new client in it, or with a
-- message taken from a queue.
inductive Begins (s : ServerState) (now : Instant) : Event → ServerState → Prop where
  | Here (e : Event) : Begins s now e s
  | Connect (username peerIp : String) (key : Vector UInt8 KEY_SIZE) (write : Writer) :
      Begins s now (.Connect username peerIp key write) (s.welcome username peerIp key write now)
  | Consume (r : ClientRef) (message : ClientMessage) (rest : List ClientMessage)
      (hqueue : (s.get r).queue = message :: rest) :
      Begins s now (.Consume r) (s.modify r fun c => { c with queue := rest })

-- A client is there as it was, is new, or has one message less to handle.
theorem Begins.get {t : ServerState} (h : s.Begins now e t) (q : ClientRef) :
    t.get q = s.get q ∨
    (q = s.next ∧ (∃ username peerIp key write, e = .Connect username peerIp key write) ∧
      (t.get q).Fresh) ∨
    ∃ message rest, (s.get q).queue = message :: rest ∧ t.get q = { s.get q with queue := rest } := by
  cases h with
  | Here _ => exact .inl rfl
  | Connect username peerIp key write =>
      by_cases hq : q = s.next
      · subst hq
        obtain ⟨mute, hnew⟩ := get_welcome_self s username peerIp key write now
        refine .inr (.inl ⟨rfl, ⟨username, peerIp, key, write, rfl⟩, ?_⟩)
        rw [hnew]
        exact ⟨username, _, key, peerIp, write, now, mute, rfl⟩
      · exact .inl (get_welcome_ne hq)
  | Consume r message rest hqueue =>
      by_cases hq : q = r
      · subst hq
        rw [get_modify_self]
        exact .inr (.inr ⟨message, rest, hqueue, rfl⟩)
      · exact .inl (get_modify_ne _ hq)

theorem Begins.same {t : ServerState} (h : s.Begins now e t) :
    t.channels = s.channels ∧ t.anticheat = s.anticheat ∧
      t.removePositionalData = s.removePositionalData ∧ s.next ≤ t.next := by
  cases h with
  | Here _ | Consume r message rest _ => exact ⟨rfl, rfl, rfl, Nat.le_refl _⟩
  | Connect username peerIp key write =>
      unfold welcome
      dsimp only
      split_ifs <;> exact ⟨rfl, rfl, rfl, Nat.le_succ _⟩

theorem does_adminEvent (s : ServerState) (request : AdminRequest) :
    s.Does (s.Allows now (.Admin request) result) (Touches (.Admin request))
      (s.handleAdmin request) := by
  refine does_handleAdmin s request (.inl ⟨request, rfl⟩) ?_ ?_ ?_ ?_ ?_ ?_ ?_
  · rintro config rfl
    exact ⟨config, rfl⟩
  · rintro user r rfl hr c
    exact hr
  · rintro rfl r hr c
    exact hr
  · rintro user action r rfl hr c exempt hexempt
    have hsets : s.SetsExempt (.Admin (.PostAnticheatUser user action)) r exempt :=
      ⟨user, action, rfl, hr, hexempt⟩
    refine ⟨hsets, .inl (.inl ?_)⟩
    rwa [Bool.not_not]
  · rintro user mute r rfl hr c
    exact .inl (.inr (.inl ⟨user, rfl, hr⟩))
  · rintro user deaf rfl r c
    exact .inr ⟨user, deaf, rfl⟩
  · rintro session rfl r c
    exact ⟨session, rfl⟩

-- What an event does to the clients.
theorem step_does (hindexed : s.registry.Indexed) (h : s.step now e = .ok (s', result)) :
    ∃ t, s.Begins now e t ∧ t.Does (s.Allows now e result) (Touches e) s' := by
  have hA := s.lenient_allows now e result
  cases e with
  | Connect username peerIp key write =>
      have hconnect : (s.handleNewClient username peerIp key write now).1 = s ∨
          (s.welcome username peerIp key write now).Does
            (s.Allows now (.Connect username peerIp key write) result)
            (Touches (.Connect username peerIp key write))
            (s.handleNewClient username peerIp key write now).1 :=
        does_handleNewClient username peerIp key write
      rw [Except.ok.inj h] at hconnect
      rcases hconnect with rfl | hdoes
      · exact ⟨_, .Here _, .refl _⟩
      · exact ⟨_, .Connect username peerIp key write, hdoes⟩
  | Tcp r frame =>
      refine ⟨s, .Here _, ?_⟩
      rcases readFrame_cases h with ⟨hloops, s₁, hframe, rfl⟩ | ⟨rfl, -⟩
      · refine (does_handleFrame hloops hframe).trans (does_countFailure s₁ r .Tcp result ?_ ?_)
        · exact fun error herror hended => ⟨⟨error, herror, hended⟩, .inr ⟨frame, rfl⟩⟩
        · exact fun _ => .inl ⟨frame, rfl⟩
      · exact .refl _
  | Consume r =>
      rcases consume_cases h with ⟨-, message, rest, s₁, hqueue, hqueued, rfl⟩ | ⟨rfl, -⟩
      · refine ⟨_, .Consume r message rest hqueue, ?_⟩
        refine (does_handleQueued hqueue hqueued).trans
          (does_countFailure s₁ r .Queue result ?_ ?_)
        · exact fun error herror hended => ⟨⟨error, herror, hended⟩, .inl rfl⟩
        · exact fun _ => .inl rfl
      · exact ⟨_, .Here _, .refl _⟩
  | Udp addr datagram order =>
      obtain ⟨⟨s₁, handled⟩, hpacket, h⟩ := Exec.bind_eq_ok.mp h
      cases h
      exact ⟨s, .Here _, does_handlePacket hindexed hpacket⟩
  | CleanRun =>
      have hclean := does_cleanRun hA (s.tells_allows now result trivial) (K := Touches .CleanRun) trivial s
      rw [Except.ok.inj h] at hclean
      exact ⟨s, .Here _, hclean⟩
  | Quit r loop =>
      refine ⟨s, .Here _, ?_⟩
      cases h
      split_ifs
      · exact does_stop s r loop fun _ => by cases loop <;> exact .inr rfl
      · exact .refl s
  | EndLoop r =>
      refine ⟨s, .Here _, ?_⟩
      cases h
      split_ifs
      · exact does_endLoop hA (s.tells_allows now _ trivial) trivial s r fun _ => .inl rfl
      · exact .refl s
  | Network r write link =>
      refine ⟨s, .Here _, ?_⟩
      cases h
      exact does_routine hA (.Network write link) trivial
  | Admin request =>
      refine ⟨s, .Here _, ?_⟩
      cases h
      exact does_adminEvent s request
  | Flag r reason =>
      refine ⟨s, .Here _, ?_⟩
      cases h
      split_ifs
      · refine does_flag s r now reason (.inr ⟨r, reason, rfl⟩)
          (fun hcool => ⟨rfl, ⟨reason, rfl⟩, hcool⟩) ?_
        exact fun c hexempt => .inr ⟨⟨reason, rfl⟩, hexempt⟩
      · exact .refl s

-- What holds of every new client, is kept when a message is taken from a queue, and is
-- kept by every deed that is allowed.
theorem step_keeps {I : ClientRef → Client → Prop} (hindexed : s.registry.Indexed)
    (h : s.step now e = .ok (s', result))
    (hfresh : (∃ username peerIp key write, e = .Connect username peerIp key write) →
      ∀ {c : Client}, c.Fresh → I s.next c)
    (htaken : ∀ q message rest, (s.get q).queue = message :: rest →
      I q (s.get q) → I q { s.get q with queue := rest })
    (hdeed : ∀ q {c : Client} {d : Deed}, s.Allows now e result q c d → I q c → I q (d.apply c))
    (hs : ∀ q, I q (s.get q)) (q : ClientRef) : I q (s'.get q) := by
  obtain ⟨t, hbegins, hdoes⟩ := step_does hindexed h
  refine (hdoes.clients q).kept (hdeed q) ?_
  rcases hbegins.get q with hsame | ⟨rfl, hconnect, hnew⟩ | ⟨message, rest, hqueue, htook⟩
  · rw [hsame]
    exact hs q
  · exact hfresh hconnect hnew
  · rw [htook]
    exact htaken q message rest hqueue (hs q)

theorem next_le_step (hindexed : s.registry.Indexed) (h : s.step now e = .ok (s', result)) :
    s.next ≤ s'.next := by
  obtain ⟨t, hbegins, hdoes⟩ := step_does hindexed h
  rw [hdoes.frame.next]
  exact hbegins.same.2.2.2

-- The settings are changed by the one request that is for that.
theorem anticheat_step (hindexed : s.registry.Indexed) (h : s.step now e = .ok (s', result))
    (hconfig : ∀ config, e ≠ .Admin (.PostAnticheatConfig config)) :
    s'.anticheat = s.anticheat := by
  obtain ⟨t, hbegins, hdoes⟩ := step_does hindexed h
  rw [hdoes.frame.settings fun ⟨config, hevent⟩ => hconfig config hevent]
  exact hbegins.same.2.1

end Step

-- What new messages in its queue and every deed at some times keep of a client, a run that
-- sees only those times keeps.
theorem run_keeps {I : Client → Prop} {P : Instant → Prop} {labels : List Label}
    (htaken : ∀ {c : Client} rest, I c → I { c with queue := rest })
    (hdeed : ∀ {s : ServerState} {l : Label} {q c d}, P l.now → s.Allows l.now l.event l.result q c d →
      I c → I (d.apply c))
    (hsound : s.registry.Sound) (hrun : Run Transition s labels s')
    (hlabels : ∀ l ∈ labels, P l.now) (hr : r < s.next) (h : I (s.get r)) : I (s'.get r) := by
  have hkept := hrun.invariant
    (I := fun s => s.registry.Sound ∧ r < s.next ∧ I (s.get r)) (P := fun l => P l.now)
    (fun {s l s'} hl hs hstep => by
      obtain ⟨hsound, hr, h⟩ := hs
      refine ⟨sound_transition hsound hstep,
        Nat.lt_of_lt_of_le hr (next_le_step hsound.indexed hstep.step), ?_⟩
      refine step_keeps (I := fun q c => q = r → I c) hsound.indexed hstep.step ?_ ?_ ?_ ?_ r rfl
      · exact fun _ _ _ hq => absurd hq (Nat.ne_of_gt hr)
      · exact fun q message rest _ hI hq => htaken rest (hI hq)
      · exact fun q c d hd hI hq => hdeed hl hd (hI hq)
      · rintro q rfl
        exact h)
    hlabels ⟨hsound, hr, h⟩
  exact hkept.2.2

end ServerState

end Mumble
