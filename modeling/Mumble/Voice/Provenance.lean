import Mumble.Crypt.Theorems
import Mumble.Deeds.Runs
import Mumble.Mute
import Mumble.Voice.Relay

/-!
Where the voice packets that a client is handed come from.
-/

namespace Mumble

open Mumble.Lib

theorem Client.mem_audio {c : Client} {packet : VoicePacket .ClientBound} :
    packet ∈ c.audio ↔ .SendVoicePacket packet ∈ c.sent := by
  rw [Client.audio, List.mem_filterMap]
  constructor
  · rintro ⟨message, hmem, hpacket⟩
    cases message with
    | SendVoicePacket other =>
        cases hpacket
        exact hmem
    | RouteVoicePacket | SendMessage => cases hpacket
  · exact fun hmem => ⟨_, hmem, rfl⟩

theorem VoicePacket.position_intoClientBound (packet : VoicePacket .ServerBound) (sessionId : UInt32) :
    (packet.intoClientBound sessionId true).position = none := by
  cases packet <;> rfl

namespace ServerState

variable {start s s' : ServerState} {course more : List Occurrence} {o : Occurrence} {r q : ClientRef}
  {packet : VoicePacket .ClientBound} {l : Label}

-- In the course of the run the client has said the packet.
def Said (start : ServerState) (course : List Occurrence) (r : ClientRef)
    (packet : VoicePacket .ClientBound) : Prop :=
  ∃ before l after s, course = before ++ .Event l :: after ∧ Run Occurs start before s ∧
    s.Says l.now r packet l.event

-- It was passed on to another one, at a time when the one might speak and the other hear.
def HandedOn (start : ServerState) (course : List Occurrence) (r q : ClientRef)
    (packet : VoicePacket .ClientBound) : Prop :=
  ∃ before l after s, course = before ++ .Event l :: after ∧ Run Occurs start before s ∧
    s.PassesOn l.now r packet l.event ∧ (s.get r).mute = false ∧ (s.get q).deaf = false ∧
    Said start (before ++ [.Event l]) r packet

theorem Said.later (h : Said start course r packet) (more : List Occurrence) :
    Said start (course ++ more) r packet := by
  obtain ⟨before, l, after, s, rfl, hrun, hspoken⟩ := h
  exact ⟨before, l, after ++ more, s, by simp, hrun, hspoken⟩

theorem HandedOn.later (h : HandedOn start course r q packet) (more : List Occurrence) :
    HandedOn start (course ++ more) r q packet := by
  obtain ⟨before, l, after, s, rfl, hrun, hrest⟩ := h
  exact ⟨before, l, after ++ more, s, by simp, hrun, hrest⟩

theorem HandedOn.said (h : HandedOn start course r q packet) : Said start course r packet := by
  obtain ⟨before, l, after, s, rfl, -, -, -, -, hsaid⟩ := h
  have hlater := hsaid.later after
  rwa [List.append_assoc, List.singleton_append] at hlater

theorem Says.said (h : s.Says l.now r packet l.event) (hrun : Run Occurs start course s) :
    Said start (course ++ [.Event l]) r packet := ⟨course, l, [], s, rfl, hrun, h⟩

-- A voice message in the queue of a client, or in a tunnel, is there because somebody
-- said it.
def Accounted (start : ServerState) (course : List Occurrence) (q : ClientRef) :
    ClientMessage → Prop
  | .RouteVoicePacket packet => Said start course q packet
  | .SendVoicePacket packet => ∃ r, HandedOn start course r q packet
  | .SendMessage (.UDPTunnel bytes) =>
      ∃ r packet, bytes = encodeVoicePacket packet [] ∧ Said start course r packet
  | .SendMessage _ => True

theorem Accounted.later {message : ClientMessage} (h : Accounted start course q message)
    (more : List Occurrence) : Accounted start (course ++ more) q message := by
  cases message with
  | RouteVoicePacket packet => exact Said.later h more
  | SendVoicePacket packet =>
      obtain ⟨r, hhanded⟩ := h
      exact ⟨r, hhanded.later more⟩
  | SendMessage message =>
      cases message with
      | UDPTunnel bytes =>
          obtain ⟨r, packet, hbytes, hsaid⟩ := h
          exact ⟨r, packet, hbytes, hsaid.later more⟩
      | _ => trivial

structure AllAccounted (start : ServerState) (course : List Occurrence) (q : ClientRef)
    (c : Client) : Prop where
  sent : ∀ message ∈ c.sent, Accounted start course q message
  queue : ∀ message ∈ c.queue, message ∈ c.sent

theorem allAccounted_fresh {c : Client} (h : c.Fresh) : AllAccounted start course q c := by
  obtain ⟨username, session, key, peerIp, write, now, mute, rfl⟩ := h
  exact ⟨fun _ hmem => (nomatch hmem), fun _ hmem => (nomatch hmem)⟩

theorem AllAccounted.later {c : Client} (h : AllAccounted start course q c)
    (more : List Occurrence) : AllAccounted start (course ++ more) q c :=
  ⟨fun message hmem => (h.sent message hmem).later more, h.queue⟩

-- A deed that sends nothing, or something that is accounted for.
theorem AllAccounted.deed {c : Client} {d : Deed} (h : AllAccounted start course q c)
    (hwrite : ∀ message, d = .Write message → Accounted start course q (.SendMessage message))
    (hpush : ∀ message, d = .Push message → Accounted start course q message) :
    AllAccounted start course q (d.apply c) := by
  obtain ⟨hsent, hqueue⟩ := h
  cases d with
  | Write message =>
      refine ⟨fun other hother => ?_, fun other hother => List.mem_append_left _ (hqueue other hother)⟩
      rcases List.mem_append.mp hother with hold | hnew
      · exact hsent other hold
      · rw [List.mem_singleton.mp hnew]
        exact hwrite message rfl
  | Push message =>
      refine ⟨fun other hother => ?_, fun other hother => ?_⟩
      · rcases List.mem_append.mp hother with hold | hnew
        · exact hsent other hold
        · rw [List.mem_singleton.mp hnew]
          exact hpush message rfl
      · rcases List.mem_append.mp hother with hold | hnew
        · exact List.mem_append_left _ (hqueue other hold)
        · exact List.mem_append_right _ hnew
  | _ => exact ⟨hsent, hqueue⟩

theorem AllAccounted.taken {c : Client} {message : ClientMessage} {rest : List ClientMessage}
    (h : AllAccounted start course q c) (hqueue : c.queue = message :: rest) :
    AllAccounted start course q { c with queue := rest } := by
  refine ⟨h.sent, fun other hother => h.queue other ?_⟩
  rw [hqueue]
  exact List.mem_cons_of_mem _ hother

-- Whoever's packet is passed on has said it.
theorem PassesOn.said (h : s.PassesOn l.now r packet l.event) (hrun : Run Occurs start course s)
    (hall : AllAccounted start course r (s.get r)) :
    Said start (course ++ [.Event l]) r packet := by
  obtain ⟨now, event, result⟩ := l
  cases event with
  | Tcp p frame =>
      have hspoken : s.Says now r packet (.Tcp p frame) := h
      exact Says.said (l := ⟨now, .Tcp p frame, result⟩) hspoken hrun
  | Consume p =>
      obtain ⟨rfl, rest, hqueue⟩ := h
      have hmem : .RouteVoicePacket packet ∈ (s.get p).queue := by
        rw [hqueue]
        exact List.mem_cons_self ..
      exact Said.later (hall.sent _ (hall.queue _ hmem)) _
  | _ => exact absurd h id

section Event

variable (hrun : Run Occurs start course s) (hall : ∀ q, AllAccounted start course q (s.get q))
include hrun hall

theorem accounted_write {c : Client} {message : ServerMessage}
    (h : s.Allows l.now l.event l.result q c (.Write message)) :
    Accounted start (course ++ [.Event l]) q (.SendMessage message) := by
  cases message with
  | UDPTunnel bytes =>
      obtain ⟨packet, rfl, ⟨hpasses, -⟩ | ⟨-, rest, hqueue⟩⟩ := h
      · exact ⟨q, packet, rfl, hpasses.said hrun (hall q)⟩
      · have hmem : .SendVoicePacket packet ∈ (s.get q).queue := by
          rw [hqueue]
          exact List.mem_cons_self ..
        obtain ⟨r, hhanded⟩ := (hall q).sent _ ((hall q).queue _ hmem)
        exact ⟨r, packet, rfl, hhanded.said.later _⟩
  | _ => trivial

theorem accounted_push {c : Client} {message : ClientMessage}
    (hdeaf : ∀ r packet, s.PassesOn l.now r packet l.event → c.deaf = (s.get q).deaf)
    (h : s.Allows l.now l.event l.result q c (.Push message)) :
    Accounted start (course ++ [.Event l]) q message := by
  cases message with
  | RouteVoicePacket packet => exact Says.said h.2.2 hrun
  | SendVoicePacket packet =>
      obtain ⟨-, hhears, r, hpasses, hmute⟩ := h
      rw [hdeaf r packet hpasses] at hhears
      exact ⟨r, course, l, [], s, rfl, hrun, hpasses, hmute, hhears, hpasses.said hrun (hall r)⟩
  | SendMessage message =>
      cases message with
      | UDPTunnel bytes => cases h.2.1
      | _ => trivial

end Event

-- Nobody's `deaf` changes in an event that passes a packet on.
theorem PassesOn.deaf {c : Client} {d : Deed} (hpasses : s.PassesOn l.now r packet l.event)
    (h : s.Allows l.now l.event l.result q c d) : (d.apply c).deaf = c.deaf := by
  cases d with
  | Deafen deaf =>
      rcases h with ⟨p, message, hevent⟩ | ⟨user, deaf, hevent⟩
      · rw [hevent] at hpasses
        exact absurd hpasses id
      · rw [hevent] at hpasses
        exact absurd hpasses id
  | _ => rfl

theorem allAccounted_occurs (hsound : s.registry.Sound) (hrun : Run Occurs start course s)
    (hall : ∀ q, AllAccounted start course q (s.get q)) (h : s.Occurs o s') (q : ClientRef) :
    AllAccounted start (course ++ [o]) q (s'.get q) := by
  cases o with
  | Sample limits now =>
      refine h.keeps (I := AllAccounted start (course ++ [.Sample limits now])) hsound
        (fun _ _ => allAccounted_fresh) (fun _ _ _ hqueue hc => hc.taken hqueue) ?_
        (fun q => (hall q).later _) q
      intro q c d hd hc
      refine hc.deed ?_ ?_
      · rintro message rfl
        exact absurd hd id
      · rintro message rfl
        exact absurd hd id
  | Event l =>
      have hboth := h.keeps (I := fun q c => AllAccounted start (course ++ [.Event l]) q c ∧
          ∀ r packet, s.PassesOn l.now r packet l.event → c.deaf = (s.get q).deaf) hsound
        ?_ (fun _ _ _ hqueue hc => ⟨hc.1.taken hqueue, hc.2⟩) ?_
        (fun q => ⟨(hall q).later _, fun _ _ _ => rfl⟩) q
      · exact hboth.1
      · rintro ⟨l', username, peerIp, key, write, ⟨⟩, hevent⟩ c hfresh
        refine ⟨allAccounted_fresh hfresh, fun r packet hpasses => ?_⟩
        rw [hevent] at hpasses
        exact absurd hpasses id
      · rintro q c d hd ⟨hc, hdeaf⟩
        refine ⟨hc.deed ?_ ?_, fun r packet hpasses => ?_⟩
        · rintro message rfl
          exact accounted_write hrun hall hd
        · rintro message rfl
          exact accounted_push hrun hall hdeaf hd
        · rw [hpasses.deaf hd, hdeaf r packet hpasses]

section Start

variable {removePositionalData : Bool} {anticheat : AnticheatConfig} {bans : BanList}

theorem allAccounted_run (hrun : Run Occurs (.new removePositionalData anticheat bans) course s)
    (q : ClientRef) :
    AllAccounted (.new removePositionalData anticheat bans) course q (s.get q) := by
  have hboth := hrun.history (I := fun course s => s.registry.Sound ∧
      ∀ q, AllAccounted (.new removePositionalData anticheat bans) course q (s.get q))
    ⟨sound_new _ _ _, fun q => allAccounted_fresh fresh_default⟩
    (fun hrun hs hoccurs => ⟨sound_occurs hs.1 hoccurs,
      fun q => allAccounted_occurs hs.1 hrun hs.2 hoccurs q⟩)
  exact hboth.2 q

end Start

-- What a client says is well formed, whichever way it comes.
theorem Says.wellFormed {now : Instant} {e : Event} (h : s.Says now r packet e) :
    packet.WellFormed := by
  cases e with
  | Tcp p frame =>
      cases frame with
      | UDPTunnel payload =>
          obtain ⟨-, said, hdecode, rfl⟩ := h
          exact (decodeVoicePacket_wellFormed hdecode).intoClientBound _ _
      | _ => exact absurd h id
  | Udp addr datagram order =>
      obtain ⟨said, ⟨crypt, hdecrypt⟩, rfl⟩ := h
      obtain ⟨e, hrefused, -⟩ | ⟨nonce, late, lost, plain, found, -, hdecode, haccepted⟩ :=
        CryptState.decrypt_cases .ServerBound (s.get r).crypt now (datagram.take UDP_BUFFER_SIZE)
      · rw [hdecrypt] at hrefused
        cases hrefused
      · rw [hdecrypt] at haccepted
        cases haccepted
        exact (decodeVoicePacket_wellFormed hdecode).intoClientBound _ _
  | _ => exact absurd h id

theorem strips_run (hrun : Run Occurs start course s) (hsound : start.registry.Sound) :
    s.removePositionalData = start.removePositionalData := by
  have hboth := hrun.invariant (P := fun _ => True)
    (I := fun s => s.registry.Sound ∧ s.removePositionalData = start.removePositionalData)
    (fun {s o s'} _ hs hoccurs => ?_) (fun _ _ => trivial) ⟨hsound, rfl⟩
  · exact hboth.2
  · refine ⟨sound_occurs hs.1 hoccurs, ?_⟩
    exact (hoccurs.strips hs.1).trans hs.2

-- A packet has no position if the server strips them.
theorem Said.position (h : Said start course r packet) (hsound : start.registry.Sound)
    (hstrips : start.removePositionalData = true) : packet.position = none := by
  obtain ⟨before, l, after, s, -, hrun, hspoken⟩ := h
  have hrelayed (said : VoicePacket .ServerBound) : (s.relayed r said).position = none := by
    rw [relayed, (strips_run hrun hsound).trans hstrips]
    exact said.position_intoClientBound _
  obtain ⟨now, event, result⟩ := l
  cases event with
  | Tcp p frame =>
      cases frame with
      | UDPTunnel payload =>
          obtain ⟨-, said, -, rfl⟩ := hspoken
          exact hrelayed said
      | _ => exact absurd hspoken id
  | Udp addr datagram order =>
      obtain ⟨said, -, rfl⟩ := hspoken
      exact hrelayed said
  | _ => exact absurd hspoken id

theorem Said.wellFormed (h : Said start course r packet) : packet.WellFormed := by
  obtain ⟨before, l, after, s, -, -, hspoken⟩ := h
  exact hspoken.wellFormed

-- A server that strips positions gives none away: neither in a packet that is handed to a
-- client nor in the tunnel through its stream, as the client decodes it.
theorem positions_stripped {anticheat : AnticheatConfig} {bans : BanList}
    (hrun : Run Occurs (.new true anticheat bans) course s) (q : ClientRef) :
    (∀ packet ∈ (s.get q).audio, packet.position = none) ∧
    ∀ bytes, .SendMessage (.UDPTunnel bytes) ∈ (s.get q).sent →
      ∃ packet, decodeVoicePacket .ClientBound bytes = .ok (.ok packet) ∧ packet.position = none := by
  have hall := allAccounted_run hrun q
  have hsound := sound_new true anticheat bans
  constructor
  · intro packet hheard
    obtain ⟨r, hhanded⟩ := hall.sent _ (Client.mem_audio.mp hheard)
    exact hhanded.said.position hsound rfl
  · intro bytes htunnel
    obtain ⟨r, packet, rfl, hsaid⟩ := hall.sent _ htunnel
    exact ⟨packet, decodeVoicePacket_encodeVoicePacket packet hsaid.wellFormed,
      hsaid.position hsound rfl⟩

-- The first of two clients speaks from a position.
def samplePositioned : List (Instant × Event) :=
  sampleClients ++ [(0, .Tcp 1 (.UserState { sampleUserState 2 with channelId := some 0 })),
    (0, .Tcp 0 (.UDPTunnel ([128, 0, 1, 7] ++ List.replicate 12 1)))]

def sampleStripping : ServerState := .new true ⟨true, 10, 500, 30, .Mute⟩ ⟨[], 1⟩

theorem run_samplePositioned :
    Run Occurs sampleStripping (sampleStripping.courseOf samplePositioned)
      (sampleStripping.afterAll samplePositioned) := by
  refine run_courseOf ?_
  simp [samplePositioned, sampleClients]

theorem positions_stripped_sample :
    ((sampleServer.afterAll samplePositioned).get 1).audio =
      [.Audio 0 1 0 (.Opus [7] false) (some (List.replicate 12 1))] ∧
    ((sampleStripping.afterAll samplePositioned).get 1).audio =
      [.Audio 0 1 0 (.Opus [7] false) none] ∧
    ∀ packet ∈ ((sampleStripping.afterAll samplePositioned).get 1).audio, packet.position = none :=
  ⟨by decide +kernel, by decide +kernel, (positions_stripped run_samplePositioned 1).1⟩

end ServerState

end Mumble
