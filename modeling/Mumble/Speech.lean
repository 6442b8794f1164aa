import Mumble.Mute
import Mumble.Panics
import Mumble.Registry.Entries
import Mumble.Views

namespace Mumble

open Mumble.Lib

theorem ServerState.lookup_addAll (m l : HashIndex UInt32 ClientRef) (session : UInt32) :
    (ServerState.addAll m l).lookup session = (l.lookup session).or (m.lookup session) :=
  HashIndex.lookup_foldl_insertNew m.entries l session

-- The queue of a client after a packet was passed to it.
def Client.hearing (c : Client) (packet : VoicePacket .ClientBound) : List ClientMessage :=
  if c.deaf = true ∨ c.closed = true ∨ QUEUE_CAPACITY ≤ c.queue.length then c.queue
  else c.queue ++ [.SendVoicePacket packet]

namespace Client

variable {c : Client} {packet : VoicePacket .ClientBound}

theorem hearing_deaf (h : c.deaf = true) : c.hearing packet = c.queue := if_pos (.inl h)

theorem hearing_eq_trySend (h : c.deaf = false) :
    c.hearing packet = (c.trySend (.SendVoicePacket packet)).1.queue := by
  unfold hearing trySend
  rw [h]
  by_cases hclosed : c.closed = true
  · simp [hclosed]
  · by_cases hfull : QUEUE_CAPACITY ≤ c.queue.length
    · simp [hclosed, hfull]
    · simp [hclosed, hfull]

-- The queue takes one more message.
def HasRoom (c : Client) : Prop := c.closed = false ∧ c.queue.length < QUEUE_CAPACITY

theorem hearing_eq_append_iff : c.hearing packet = c.queue ++ [.SendVoicePacket packet] ↔
    c.deaf = false ∧ c.HasRoom := by
  unfold hearing
  split_ifs with h
  · refine iff_of_false (by simp) ?_
    rintro ⟨hdeaf, hopen, hroom⟩
    rcases h with h | h | h
    · exact absurd (hdeaf.symm.trans h) Bool.false_ne_true
    · exact absurd (hopen.symm.trans h) Bool.false_ne_true
    · omega
  · push Not at h
    exact iff_of_true rfl ⟨Bool.eq_false_iff.mpr h.1, Bool.eq_false_iff.mpr h.2.1, h.2.2⟩

end Client

namespace ServerState

variable {s s' : ServerState} {r q : ClientRef} {session : UInt32} {now : Instant}
  {packet : VoicePacket .ClientBound}

-- At most the notes that the anticheat keeps of clients differ.
structure Noted (s s' : ServerState) : Prop where
  channels : s'.channels = s.channels
  get : ∀ q, ∃ ac, s'.get q = { s.get q with ac }

namespace Noted

theorem modify (s : ServerState) (r : ClientRef) (f : Client → AcStats) :
    Noted s (s.modify r fun c => { c with ac := f c }) := by
  refine ⟨rfl, fun q => ?_⟩
  by_cases hq : q = r
  · subst hq
    exact ⟨_, get_modify_self ..⟩
  · exact ⟨_, get_modify_ne _ hq⟩

theorem field (h : Noted s s') {β : Type} (π : Client → β) (hπ : ∀ c ac, π { c with ac } = π c)
    (q : ClientRef) : π (s'.get q) = π (s.get q) := by
  obtain ⟨ac, hget⟩ := h.get q
  rw [hget, hπ]

theorem deaf (h : Noted s s') (q : ClientRef) : (s'.get q).deaf = (s.get q).deaf :=
  h.field (fun c => c.deaf) (fun _ _ => rfl) q

theorem hearing (h : Noted s s') (q : ClientRef) :
    (s'.get q).hearing packet = (s.get q).hearing packet :=
  h.field (fun c => c.hearing packet) (fun _ _ => rfl) q

theorem queue (h : Noted s s') (q : ClientRef) : (s'.get q).queue = (s.get q).queue :=
  h.field (fun c => c.queue) (fun _ _ => rfl) q

end Noted

-- One turn of the loop that sends a packet, for a client that is not deaf.
def pass (s : ServerState) (r : ClientRef) (now : Instant) (recordHeard : Bool)
    (packet : VoicePacket .ClientBound) (q : ClientRef) : ServerState :=
  (if recordHeard then s.noteHeard r q now else s).trySend q (.SendVoicePacket packet)

theorem deaf_pass (recordHeard : Bool) (p : ClientRef) :
    ((s.pass r now recordHeard packet q).get p).deaf = (s.get p).deaf := by
  have hregistry : (s.pass r now recordHeard packet q).registry = s.registry := by
    unfold pass
    rw [registry_trySend]
    split_ifs
    · exact registry_noteHeard r q
    · rfl
  exact congrArg (fun g : Registry => (g.entry p).deaf) hregistry

theorem get_pass_ne {p : ClientRef} (recordHeard : Bool) (h : p ≠ q) :
    (s.pass r now recordHeard packet q).get p = s.get p := by
  unfold pass
  rw [get_trySend_ne h]
  split_ifs
  · rw [noteHeard, get_modify_ne _ h]
  · rfl

theorem queue_pass (recordHeard : Bool) (hdeaf : (s.get q).deaf = false) :
    ((s.pass r now recordHeard packet q).get q).queue = (s.get q).hearing packet := by
  have hsent {s₀ : ServerState} (h : (s₀.get q).deaf = false) :
      ((s₀.trySend q (.SendVoicePacket packet)).get q).queue = (s₀.get q).hearing packet := by
    rw [get_trySend_self, Client.hearing_eq_trySend h]
  unfold pass
  split_ifs
  · have hnoted : Noted s (s.noteHeard r q now) := by
      unfold noteHeard
      exact .modify s q _
    rw [hsent ((hnoted.deaf q).trans hdeaf), hnoted.hearing]
  · exact hsent hdeaf

theorem get_foldl_pass_ne {listeners : List ClientRef} (recordHeard : Bool) (h : q ∉ listeners) :
    (listeners.foldl (fun s q => s.pass r now recordHeard packet q) s).get q = s.get q := by
  induction listeners generalizing s with
  | nil => rfl
  | cons p listeners ih =>
      obtain ⟨hne, hrest⟩ := not_or.mp (mt List.mem_cons.mpr h)
      rw [List.foldl_cons, ih hrest, get_pass_ne recordHeard hne]

-- Everyone who is passed the packet gets it once.
theorem queue_foldl_pass (recordHeard : Bool) {listeners : List ClientRef}
    (hnodup : listeners.Nodup) (hhear : ∀ q ∈ listeners, (s.get q).deaf = false) (q : ClientRef) :
    ((listeners.foldl (fun s q => s.pass r now recordHeard packet q) s).get q).queue =
      if q ∈ listeners then (s.get q).hearing packet else (s.get q).queue := by
  induction listeners generalizing s with
  | nil => rfl
  | cons p listeners ih =>
      obtain ⟨hfirst, hrest⟩ := List.nodup_cons.mp hnodup
      have hhear' : ∀ q ∈ listeners, ((s.pass r now recordHeard packet p).get q).deaf = false := by
        intro q hq
        rw [deaf_pass]
        exact hhear q (List.mem_cons_of_mem _ hq)
      rw [List.foldl_cons, ih hrest hhear']
      by_cases hq : q = p
      · subst hq
        rw [if_neg hfirst, if_pos List.mem_cons_self,
          queue_pass recordHeard (hhear q List.mem_cons_self)]
      · simp only [get_pass_ne recordHeard hq, List.mem_cons, hq, false_or]

-- The loop passes the packet to those who are not deaf and counts them.
theorem sendToAll_eq (s : ServerState) (r : ClientRef) (now : Instant) (recordHeard : Bool)
    (packet : VoicePacket .ClientBound) (recipients : UInt32) (listeners : List ClientRef) :
    s.sendToAll r now recordHeard packet recipients listeners =
      ((listeners.filter fun q => !(s.get q).deaf).foldl
          (fun s q => s.pass r now recordHeard packet q) s,
        recipients + UInt32.ofNat (listeners.filter fun q => !(s.get q).deaf).length) := by
  induction listeners generalizing s recipients with
  | nil => simp [sendToAll]
  | cons q listeners ih =>
      rw [sendToAll]
      by_cases hdeaf : (s.get q).deaf = true
      · rw [if_pos hdeaf, ih]
        simp only [List.filter_cons, hdeaf, Bool.not_true, Bool.false_eq_true, if_false]
      · rw [if_neg hdeaf]
        refine (ih (s.pass r now recordHeard packet q) (recipients + 1)).trans ?_
        simp only [deaf_pass, List.filter_cons, Bool.eq_false_iff.mpr hdeaf, Bool.not_false, if_true,
          List.foldl_cons, List.length_cons, UInt32.ofNat_add]
        rw [UInt32.add_assoc, UInt32.add_comm 1]
        rfl

-- Other notes of the anticheat about a client.
def annotate (s : ServerState) (r : ClientRef) (ac : AcStats) : ServerState :=
  s.modify r fun c => { c with ac }

theorem get_annotate_self (s : ServerState) (r : ClientRef) (ac : AcStats) :
    (s.annotate r ac).get r = { s.get r with ac } := get_modify_self ..

theorem noted_annotate (s : ServerState) (r : ClientRef) (ac : AcStats) : Noted s (s.annotate r ac) :=
  .modify s r fun _ => ac

theorem listeningClients_annotate (s : ServerState) (r : ClientRef) (ac : AcStats) (target : UInt8) :
    (s.annotate r ac).listeningClients r target = s.listeningClients r target := by
  unfold listeningClients
  rw [get_annotate_self]
  rfl

theorem notePosition_eq (h : s.notePosition r now packet = .ok s') : ∃ ac, s' = s.annotate r ac := by
  rcases notePosition_cases h with rfl | ⟨x, y, z, rfl⟩
  · exact ⟨(s'.get r).ac, (set_get s' r).symm⟩
  · exact ⟨_, rfl⟩

-- The speaker's notes when the loop has ended.
def emitted (s : ServerState) (r : ClientRef) (recipients : UInt32) : ServerState :=
  s.modify r fun c => { c with ac := s.anticheat.noteEmission recipients c.ac }

-- Whom a packet of a client to one of its slots is for.
def recipients (s : ServerState) (r : ClientRef) (target : UInt8) : HashIndex UInt32 ClientRef :=
  (s.listeningClients r target).erase (s.get r).sessionId

-- The clients that a packet of a client is tried on, in the order of the loop.
def attempted (s : ServerState) (r : ClientRef) (target : UInt8) : List ClientRef :=
  (s.recipients r target).values.filter fun q => !(s.get q).deaf

-- What the handler does with a packet of a client that is not muted: notes about the
-- speaker, the loop, and the count of those it was tried on.
theorem handleVoicePacket_passes {target : UInt8} (htarget : target ≠ 31)
    (hmute : (s.get r).mute = false) (now : Instant) (seqNum : UInt64)
    (payload : VoicePacketPayload) (positionInfo : Option (List UInt8)) :
    ∃ ac recordHeard,
      s.handleVoicePacket r now (.Audio target (s.get r).sessionId seqNum payload positionInfo) =
        .ok (((s.attempted r target).foldl (fun t q => t.pass r now recordHeard
            (.Audio target (s.get r).sessionId seqNum payload positionInfo) q)
          (s.annotate r ac)).emitted r (UInt32.ofNat (s.attempted r target).length), .ok ()) := by
  obtain ⟨s₁, hposition⟩ := s.notePosition_returns r now
    (.Audio target (s.get r).sessionId seqNum payload positionInfo)
  obtain ⟨ac₁, rfl⟩ := notePosition_eq hposition
  have hspeaks : ¬((s.annotate r ac₁).get r).mute = true := by
    rw [get_annotate_self, hmute]
    exact Bool.false_ne_true
  obtain ⟨ac, hstamped⟩ : ∃ ac, (if (s.annotate r ac₁).recordsHeard r now then
      (s.annotate r ac₁).modify r fun c =>
        { c with ac := { c.ac with lastHeardRec := some now } }
      else s.annotate r ac₁) = s.annotate r ac := by
    split_ifs
    · refine ⟨{ ac₁ with lastHeardRec := some now }, ?_⟩
      unfold annotate
      rw [modify_modify]
    · exact ⟨ac₁, rfl⟩
  refine ⟨ac, (s.annotate r ac₁).recordsHeard r now, ?_⟩
  unfold handleVoicePacket
  rw [hposition]
  simp only [bind, Except.bind, if_neg hspeaks, if_neg htarget, hstamped, sendToAll_eq,
    listeningClients_annotate, (noted_annotate s r ac).deaf, UInt32.zero_add]
  rfl

-- Who listens when a client speaks to its channel, itself apart.
def hearers (s : ServerState) (r : ClientRef) (session : UInt32) : List ClientRef :=
  HashIndex.values ((s.listeningClients r 0).erase session)

-- A packet of a client that is not muted goes to those who listen, and to nobody
-- else.
theorem handleVoicePacket_channel {seqNum : UInt64} {payload : VoicePacketPayload}
    {positionInfo : Option (List UInt8)} (hmute : (s.get r).mute = false)
    (hown : (s.get r).sessionId = session) (hnodup : (s.hearers r session).Nodup) :
    ∃ s', s.handleVoicePacket r now (.Audio 0 session seqNum payload positionInfo) =
        .ok (s', .ok ()) ∧
      ∀ q, (s'.get q).queue =
        if q ∈ s.hearers r session then
          (s.get q).hearing (.Audio 0 session seqNum payload positionInfo)
        else (s.get q).queue := by
  subst hown
  have htarget : (0 : UInt8) ≠ 31 := by decide
  obtain ⟨ac, recordHeard, hhandle⟩ :=
    handleVoicePacket_passes htarget hmute now seqNum payload positionInfo
  have hnoted := noted_annotate s r ac
  have hmem (q : ClientRef) : q ∈ s.attempted r 0 ↔
      q ∈ s.hearers r (s.get r).sessionId ∧ (s.get q).deaf = false := by
    unfold attempted
    rw [List.mem_filter, Bool.not_eq_true']
    rfl
  have honce : (s.attempted r 0).Nodup := hnodup.filter _
  refine ⟨_, hhandle, fun q => ?_⟩
  rw [emitted, (Noted.modify _ r _).queue, queue_foldl_pass recordHeard honce, hnoted.hearing,
    hnoted.queue]
  · by_cases hq : q ∈ s.hearers r (s.get r).sessionId
    · rw [if_pos hq]
      split_ifs with htried
      · rfl
      · have hdeaf : (s.get q).deaf = true := by
          by_contra hhears
          exact htried ((hmem q).mpr ⟨hq, Bool.eq_false_iff.mpr hhears⟩)
        rw [Client.hearing_deaf hdeaf]
    · rw [if_neg hq, if_neg fun htried => hq ((hmem q).mp htried).1]
  · intro q hq
    rw [hnoted.deaf]
    exact ((hmem q).mp hq).2

-- The other clients that hear and are announced where a client is.
def InChannelWith (s : ServerState) (r q : ClientRef) : Prop :=
  q ≠ r ∧ (∃ session, s.clients.lookup session = some q) ∧ (s.get q).deaf = false ∧
    (s.get q).getUserState.channelId = some (s.get r).channelId

-- A packet is new in the queue of a client, as its last message.
def Enqueued (s s' : ServerState) (packet : VoicePacket .ClientBound) (q : ClientRef) : Prop :=
  (s'.get q).queue = (s.get q).queue ++ [.SendVoicePacket packet]

-- The channel in which the client is recorded has the other one among its members.
def MemberWith (s : ServerState) (r q : ClientRef) : Prop :=
  (s.get q).sessionId ≠ (s.get r).sessionId ∧
    ∃ channel, s.channels.lookup (s.get r).channelId = some channel ∧
      channel.clients.lookup (s.get q).sessionId = some q

theorem lookup_hearers {other : UInt32} :
    ((s.listeningClients r 0).erase session).lookup other = some q ↔ other ≠ session ∧
      ∃ channel, s.channels.lookup (s.get r).channelId = some channel ∧
        channel.clients.lookup other = some q := by
  rw [HashIndex.lookup_erase_eq_some]
  refine and_congr_right fun _ => ?_
  unfold listeningClients getChannelByChannelId
  rw [if_pos rfl, ChannelMap.find_id]
  cases s.channels.lookup (s.get r).channelId with
  | none => simp
  | some channel => simp [lookup_addAll]

-- A member is on the list under its own session.
theorem sessionId_of_member (h : s.Reachable) {channel : Channel} {k : UInt32}
    (hchannel : s.channels.lookup k = some channel)
    (hmember : channel.clients.lookup session = some q) : (s.get q).sessionId = session :=
  (h.keyed ⟨channel.room, congrArg (Option.map _) hchannel, .inl hmember⟩).2

theorem mem_hearers (h : s.Reachable) (hown : (s.get r).sessionId = session) :
    q ∈ s.hearers r session ↔ s.MemberWith r q := by
  subst hown
  unfold hearers
  rw [HashIndex.mem_values]
  constructor
  · rintro ⟨other, hother⟩
    obtain ⟨hne, channel, hchannel, hmember⟩ := lookup_hearers.mp hother
    obtain rfl := sessionId_of_member h hchannel hmember
    exact ⟨hne, channel, hchannel, hmember⟩
  · exact fun hmember => ⟨_, lookup_hearers.mpr hmember⟩

-- Nobody is on the list under two sessions.
theorem nodup_hearers (h : s.Reachable) : (s.hearers r session).Nodup := by
  refine HashIndex.nodup_values (fun q => (s.get q).sessionId) fun _ _ hother => ?_
  obtain ⟨-, channel, hchannel, hmember⟩ := lookup_hearers.mp hother
  exact sessionId_of_member h hchannel hmember

-- Whose queue has a packet at its end once the members were passed it.
theorem enqueued_iff (h : s.Reachable) (hown : (s.get r).sessionId = session)
    (hqueue : (s'.get q).queue =
      if q ∈ s.hearers r session then (s.get q).hearing packet else (s.get q).queue) :
    Enqueued s s' packet q ↔
      s.MemberWith r q ∧ (s.get q).deaf = false ∧ (s.get q).HasRoom := by
  have hlisteners := mem_hearers (q := q) h hown
  unfold Enqueued
  rw [hqueue]
  by_cases hq : q ∈ s.hearers r session
  · rw [if_pos hq, Client.hearing_eq_append_iff]
    exact (and_iff_right (hlisteners.mp hq)).symm
  · rw [if_neg hq]
    refine iff_of_false (fun hsame => ?_) fun hpassed => hq (hlisteners.mpr hpassed.1)
    simp at hsame

-- Where the channels and the clients agree, who is announced in a channel other than the
-- root is a member of it, and its members are announced there.
section Members

variable (hmembers : s.registry.Membership)
include hmembers

theorem InChannelWith.memberWith (hsound : s.registry.Sound)
    (hr : s.clients.lookup session = some r) (hq : s.InChannelWith r q)
    (hk : (s.get r).channelId ≠ 0) : s.MemberWith r q := by
  obtain ⟨hqr, ⟨other, hclient⟩, -, hannounced⟩ := hq
  have hown : (s.get r).sessionId = session := (hsound.indexed.connected hr).2
  have hsession : (s.get q).sessionId = other := (hsound.indexed.connected hclient).2
  have hsame : (s.get q).channelId = (s.get r).channelId := Option.some.inj hannounced
  refine ⟨fun heq => ?_, ?_⟩
  · rw [← hsession, heq, hown, hr] at hclient
    exact hqr (Option.some.inj hclient).symm
  · obtain ⟨room, hroom, hmember⟩ := hmembers.placed hclient fun hzero => hk (hsame.symm.trans hzero)
    obtain ⟨channel, hchannel, rfl⟩ := Option.map_eq_some_iff.mp hroom
    exact ⟨channel, hsame ▸ hchannel, hsession ▸ hmember⟩

theorem MemberWith.inChannelWith (hq : s.MemberWith r q) (hdeaf : (s.get q).deaf = false) :
    s.InChannelWith r q := by
  obtain ⟨hne, channel, hchannel, hmember⟩ := hq
  have hroom : s.registry.channels (s.get r).channelId = some channel.room :=
    congrArg (Option.map _) hchannel
  obtain ⟨hclient, hsame⟩ := (hmembers.member hroom hmember).resolve_left id
  refine ⟨?_, ⟨_, hclient⟩, hdeaf, congrArg some hsame⟩
  rintro rfl
  exact hne rfl

end Members

-- Who is passed what a client that is not muted speaks to its channel: those who are
-- announced there, if they are its members and it has no others. In an orderly run that
-- can only fail in the root channel, where a client is announced from the start but becomes
-- a member by a join.
theorem speech_reaches_channel {removePositionalData : Bool} {anticheat : AnticheatConfig}
    {bans : BanList} {labels : List Label} {seqNum : UInt64} {payload : VoicePacketPayload}
    {positionInfo : Option (List UInt8)}
    (hrun : Run Transition (.new removePositionalData anticheat bans) labels s)
    (hr : s.clients.lookup session = some r) (hmute : (s.get r).mute = false) :
    (∃ s', s.handleVoicePacket r now (.Audio 0 session seqNum payload positionInfo) =
        .ok (s', .ok ()) ∧
      ((∀ q, Enqueued s s' (.Audio 0 session seqNum payload positionInfo) q ↔
        s.InChannelWith r q) ↔
      (∀ q, s.InChannelWith r q → s.MemberWith r q ∧ (s.get q).HasRoom) ∧
        ∀ q, s.MemberWith r q → (s.get q).deaf = false → (s.get q).HasRoom →
          s.InChannelWith r q)) ∧
    (Run Orderly (.new removePositionalData anticheat bans) labels s →
      (∀ q, s.InChannelWith r q → (s.get r).channelId ≠ 0 → s.MemberWith r q) ∧
        ∀ q, s.MemberWith r q → (s.get q).deaf = false → s.InChannelWith r q) := by
  have hreachable : s.Reachable := ⟨removePositionalData, anticheat, bans, labels, hrun⟩
  have hsound := hreachable.sound
  have hown : (s.get r).sessionId = session := (hsound.indexed.connected hr).2
  obtain ⟨s', hhandle, hqueues⟩ :=
    handleVoicePacket_channel hmute hown (nodup_hearers hreachable)
  have hpassed (q : ClientRef) := enqueued_iff hreachable hown (hqueues q)
  refine ⟨⟨s', hhandle, ?_, ?_⟩, fun horderly => ?_⟩
  · intro hagree
    refine ⟨fun q hq => ?_, fun q hmember hdeaf hroom => ?_⟩
    · obtain ⟨hmember, -, hroom⟩ := (hpassed q).mp ((hagree q).mpr hq)
      exact ⟨hmember, hroom⟩
    · exact (hagree q).mp ((hpassed q).mpr ⟨hmember, hdeaf, hroom⟩)
  · rintro ⟨hannounced, hmembers⟩ q
    constructor
    · intro hq
      obtain ⟨hmember, hdeaf, hroom⟩ := (hpassed q).mp hq
      exact hmembers q hmember hdeaf hroom
    · intro hq
      obtain ⟨hmember, hroom⟩ := hannounced q hq
      exact (hpassed q).mpr ⟨hmember, hq.2.2.1, hroom⟩
  · have hmembers := membership_run horderly
    exact ⟨fun q hq => hq.memberWith hmembers hsound hr, fun q hq => hq.inChannelWith hmembers⟩

-- A packet that the first client speaks to its channel.
def sampleAudio : VoicePacket .ClientBound := .Audio 0 1 0 (.Opus [7] false) none

-- Both clients join the root channel.
def sampleRooted : List (Instant × Event) :=
  sampleClients ++ [(0, .Tcp 0 (.UserState { sampleUserState 1 with channelId := some 0 })),
    (0, .Tcp 1 (.UserState { sampleUserState 2 with channelId := some 0 }))]

theorem speech_reaches_channel_rooted :
    ∃ labels s', Run Orderly sampleServer labels (sampleServer.afterAll sampleRooted) ∧
      (sampleServer.afterAll sampleRooted).handleVoicePacket 0 0 sampleAudio = .ok (s', .ok ()) ∧
      (sampleServer.afterAll sampleRooted).InChannelWith 0 1 ∧
      ∀ q, Enqueued (sampleServer.afterAll sampleRooted) s' sampleAudio q ↔
        (sampleServer.afterAll sampleRooted).InChannelWith 0 q := by
  have hevents : sampleServer.orderly sampleRooted = true := by decide +kernel
  obtain ⟨labels, hrun⟩ := run_orderly hevents
  have hr : (sampleServer.afterAll sampleRooted).clients.lookup 1 = some 0 := by decide +kernel
  have hmute : ((sampleServer.afterAll sampleRooted).get 0).mute = false := by decide +kernel
  have hjoined : ((sampleServer.afterAll sampleRooted).channels.lookup 0).any
      (fun c => c.clients.lookup 2 = some 1) = true := by decide +kernel
  obtain ⟨root, hroot, hlookup⟩ := (Option.any_eq_true _ _).mp hjoined
  have hmember : (sampleServer.afterAll sampleRooted).MemberWith 0 1 := by
    have hplace : ((sampleServer.afterAll sampleRooted).get 0).channelId = 0 := by decide +kernel
    have hsession : ((sampleServer.afterAll sampleRooted).get 1).sessionId = 2 := by decide +kernel
    refine ⟨by decide +kernel, root, ?_, ?_⟩
    · rw [hplace, hroot]
    · rw [hsession, of_decide_eq_true hlookup]
  have hroom : ((sampleServer.afterAll sampleRooted).get 1).HasRoom :=
    ⟨by decide +kernel, by decide +kernel⟩
  have hother {q : ClientRef} (hq : (sampleServer.afterAll sampleRooted).InChannelWith 0 q) :
      q = 1 := by
    obtain ⟨hne, ⟨session, hclient⟩, -⟩ := hq
    have hall : (sampleServer.afterAll sampleRooted).clients.values = [1, 0] := by decide +kernel
    have hmem := HashIndex.mem_values.mpr ⟨session, hclient⟩
    rw [hall, List.mem_pair] at hmem
    exact hmem.resolve_right hne
  obtain ⟨⟨s', hhandle, hiff⟩, horderly⟩ := speech_reaches_channel (hrun.mono fun h => h.1) hr hmute
  refine ⟨labels, s', hrun, hhandle, ?_, hiff.mpr ⟨fun q hq => ?_, fun q hq hdeaf _ => ?_⟩⟩
  · exact ⟨by decide, ⟨2, by decide +kernel⟩, by decide +kernel, by decide +kernel⟩
  · obtain rfl := hother hq
    exact ⟨hmember, hroom⟩
  · exact (horderly hrun).2 q hq hdeaf

-- Nobody has joined: the second client is announced in the root channel, where the
-- first one is, and does not get what it says there.
theorem speech_missed :
    ∃ labels s', Run Orderly sampleServer labels (sampleServer.afterAll sampleClients) ∧
      (sampleServer.afterAll sampleClients).clients.lookup 1 = some 0 ∧
      ((sampleServer.afterAll sampleClients).get 0).mute = false ∧
      (sampleServer.afterAll sampleClients).handleVoicePacket 0 0 sampleAudio =
        .ok (s', .ok ()) ∧
      (sampleServer.afterAll sampleClients).InChannelWith 0 1 ∧
      ¬Enqueued (sampleServer.afterAll sampleClients) s' sampleAudio 1 := by
  have hevents : sampleServer.orderly sampleClients = true := by decide +kernel
  obtain ⟨labels, hrun⟩ := run_orderly hevents
  have hmute : ((sampleServer.afterAll sampleClients).get 0).mute = false := by decide +kernel
  have hnobody : (sampleServer.afterAll sampleClients).hearers 0 1 = [] := by decide +kernel
  have hown : ((sampleServer.afterAll sampleClients).get 0).sessionId = 1 := by decide +kernel
  obtain ⟨s', hhandle, hqueues⟩ := handleVoicePacket_channel hmute hown (hnobody ▸ List.nodup_nil)
  refine ⟨labels, s', hrun, by decide +kernel, hmute, hhandle, ?_, ?_⟩
  · exact ⟨by decide, ⟨2, by decide +kernel⟩, by decide +kernel, by decide +kernel⟩
  · unfold Enqueued
    rw [hqueues 1, hnobody, if_neg (List.not_mem_nil)]
    simp

end ServerState

end Mumble
