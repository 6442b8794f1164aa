import Mumble.Deeds
import Mumble.Heard.Snapshot

/-!
Whose name and address an entry of who has talked to whom has, when the entries may be from
earlier processes.
-/

namespace Mumble

open Mumble.Lib

-- Who a client is, as a speaker. That never changes.
structure Client.SameSpeaker (c c' : Client) : Prop where
  name : c'.name = c.name
  sessionId : c'.sessionId = c.sessionId
  peerIp : c'.peerIp = c.peerIp

theorem Client.SameSpeaker.refl (c : Client) : c.SameSpeaker c := ⟨rfl, rfl, rfl⟩

-- And what it has heard.
structure Client.SameVoice (c c' : Client) : Prop extends c.SameSpeaker c' where
  heard : c'.ac.heard = c.ac.heard

namespace Client.SameVoice

variable {c c' c'' : Client}

theorem refl (c : Client) : c.SameVoice c := ⟨.refl c, rfl⟩

theorem trans (h : c.SameVoice c') (h' : c'.SameVoice c'') : c.SameVoice c'' :=
  ⟨⟨h'.name.trans h.name, h'.sessionId.trans h.sessionId, h'.peerIp.trans h.peerIp⟩,
    h'.heard.trans h.heard⟩

end Client.SameVoice

namespace ServerState

theorem lenient_sameVoice (now : Instant) : Lenient now fun _ c d => c.SameVoice (d.apply c) := by
  intro q c d hd
  cases d with
  | Push | Position | Hear | Record | Reset | Forget | Exempt | Charge | Flag | Mute | Deafen | Bind
  | Fail | Stop | Close | Finish => exact absurd hd id
  | Emission ac recipients =>
      refine ⟨⟨rfl, rfl, rfl⟩, ?_⟩
      dsimp only [Deed.apply, AnticheatConfig.noteEmission]
      split_ifs <;> rfl
  | _ => exact ⟨⟨rfl, rfl, rfl⟩, rfl⟩

theorem Does.sameVoice {K : Area → Prop} {s s' : ServerState}
    (h : s.Does (fun _ c d => c.SameVoice (d.apply c)) K s') (q : ClientRef) :
    (s.get q).SameVoice (s'.get q) := (h.clients q).kept (fun hd hc => hc.trans hd) (.refl _)

end ServerState

namespace AnticheatConfig

-- The entry that is written has the name and the address of the speaker, unless there was one
-- with the same session and others.
theorem noteEntry_identity (now : Instant) {name ip : String} {session : UInt32}
    {old : Option HeardEntry}
    (hold : ∀ e, old = some e → e.sessionId = session → e.name = name ∧ e.ip = ip) :
    (noteEntry now name session ip old).sessionId = session ∧
      (noteEntry now name session ip old).name = name ∧
      (noteEntry now name session ip old).ip = ip := by
  unfold noteEntry
  dsimp only
  split_ifs with hother
  · exact ⟨rfl, rfl, rfl⟩
  · have hsession := not_not.mp hother
    cases old with
    | none => exact ⟨rfl, rfl, rfl⟩
    | some e => exact ⟨hsession, hold e rfl hsession⟩

-- The entries are the speaker's and those that were there.
theorem of_lookup_noteHeard {ac : AnticheatConfig} {now : Instant} {name ip k : String}
    {session : UInt32} {c : AcStats} {e : HeardEntry}
    (h : (ac.noteHeard now name session ip c).heard.lookup k = some e) :
    k = namePart name ∧ e = noteEntry now name session ip (c.heard.lookup k) ∨
      c.heard.lookup k = some e := by
  rw [heard_noteHeard, lookup_makeRoom_key] at h
  by_cases hk : k = namePart name
  · subst hk
    rw [AList.lookup_insert] at h
    exact .inl ⟨rfl, (Option.some.inj h).symm⟩
  · rw [AList.lookup_insert_ne hk] at h
    exact .inr (of_lookup_makeRoom h)

end AnticheatConfig

namespace HeardHost

variable {Data : Type} {json : HeardJson Data} {h h' : HeardHost Data} {k name ip : String}
  {session : UInt32}

-- Under a name there is a session with a full name and an address: in a map, on a list that
-- waits, or at a client.
inductive Carries (h : HeardHost Data) : String → UInt32 → String → String → Prop where
  | Map {q : ClientRef} {k : String} {e : HeardEntry} (hq : q < h.state.next)
      (he : (h.state.get q).ac.heard.lookup k = some e) : Carries h k e.sessionId e.name e.ip
  | List {owner k : String} {e : PersistedHeardEntry} (he : h.heardSeed.find owner k = some e) :
      Carries h k e.sessionId e.name e.ip
  | Client {q : ClientRef} (hq : q < h.state.next) :
      Carries h (namePart (h.state.get q).name) (h.state.get q).sessionId (h.state.get q).name
        (h.state.get q).peerIp

-- The session of a speaker is with no other name and address under its name.
def Clear (h : HeardHost Data) (name : String) (session : UInt32) (ip : String) : Prop :=
  ∀ name' ip', h.Carries (namePart name) session name' ip' → name' = name ∧ ip' = ip

def Identified (h : HeardHost Data) : Prop :=
  ∀ r < h.state.next, h.Clear (h.state.get r).name (h.state.get r).sessionId (h.state.get r).peerIp

-- A client gets a session that is clear, and clients talk to clients.
def Allowed (h : HeardHost Data) : HeardEvent → Prop
  | .AddClient username _ _ peerIp _ => h.Clear username h.state.getFreeSessionId.2 peerIp
  | .NoteHeard speaker listener _ => speaker < h.state.next ∧ listener < h.state.next
  | _ => True

def Step (json : HeardJson Data) (h : HeardHost Data) (event : HeardEvent) (h' : HeardHost Data) :
    Prop := h.Allowed event ∧ h' = h.after json event

-- Nothing is carried that was not carried before, and the clients are who they were.
structure Kept (h h' : HeardHost Data) : Prop where
  carried : ∀ {k session name ip}, h'.Carries k session name ip → h.Carries k session name ip
  next : h'.state.next = h.state.next
  clients : ∀ q, (h.state.get q).SameSpeaker (h'.state.get q)

theorem Identified.kept (hid : h.Identified) (hkept : Kept h h') : h'.Identified := by
  intro r hr name' ip' hcarries
  obtain ⟨hname, hsession, hip⟩ := hkept.clients r
  rw [hkept.next] at hr
  rw [hname, hsession] at hcarries
  rw [hname, hip]
  exact hid r hr name' ip' (hkept.carried hcarries)

-- With the same clients, only the maps and the lists are left to look at.
theorem Kept.of_entries (hnext : h'.state.next = h.state.next)
    (hclients : ∀ q, (h.state.get q).SameSpeaker (h'.state.get q))
    (hmaps : ∀ q < h.state.next, ∀ k e, (h'.state.get q).ac.heard.lookup k = some e →
      h.Carries k e.sessionId e.name e.ip)
    (hlists : ∀ owner k e, h'.heardSeed.find owner k = some e →
      h.Carries k e.sessionId e.name e.ip) : Kept h h' := by
  refine ⟨fun hcarries => ?_, hnext, hclients⟩
  cases hcarries with
  | Map hq he => exact hmaps _ (hnext ▸ hq) _ _ he
  | List he => exact hlists _ _ _ he
  | @Client q hq =>
      obtain ⟨hname, hsession, hip⟩ := hclients q
      rw [hname, hsession, hip]
      exact .Client (hnext ▸ hq)

theorem kept_disconnect (h : HeardHost Data) (clientSession : UInt32) :
    Kept h { h with state := h.state.disconnect clientSession } := by
  have hdoes : h.state.Does (fun _ c d => c.SameVoice (d.apply c)) (fun _ => True)
      (h.state.disconnect clientSession) :=
    ServerState.does_disconnect (ServerState.lenient_sameVoice 0)
      (fun _ _ _ _ _ => ⟨⟨rfl, rfl, rfl⟩, rfl⟩) trivial h.state clientSession
  refine .of_entries hdoes.frame.next (fun q => (hdoes.sameVoice q).toSameSpeaker)
    (fun q hq k e he => ?_) fun owner k e he => .List he
  dsimp only at he
  rw [(hdoes.sameVoice q).heard] at he
  exact .Map hq he

theorem Kept.of_eq (hstate : h'.state = h.state) (hseed : h'.heardSeed = h.heardSeed) :
    Kept h h' := by
  refine .of_entries (by rw [hstate]) (fun q => ?_) (fun q hq k e he => ?_) fun owner k e he => ?_
  · rw [hstate]
    exact .refl _
  · rw [hstate] at he
    exact .Map hq he
  · rw [hseed] at he
    exact .List he

theorem kept_flushHeard (h : HeardHost Data) (now : Instant) (nowEpoch : UInt64) :
    Kept h (h.flushHeard json now nowEpoch) := by
  unfold flushHeard
  split_ifs <;> exact .of_eq rfl rfl

-- Only the map of one client is written.
theorem Kept.of_modify {r : ClientRef} {f : AcStats → AcStats} {heardSeed : PersistedHeard}
    (hmap : r < h.state.next → ∀ k e, (f (h.state.get r).ac).heard.lookup k = some e →
      h.Carries k e.sessionId e.name e.ip)
    (hlists : ∀ owner k e, heardSeed.find owner k = some e → h.heardSeed.find owner k = some e) :
    Kept h { h with state := h.state.modify r fun c => { c with ac := f c.ac }, heardSeed } := by
  refine .of_entries rfl (fun q => ?_) (fun q hlt k e he => ?_)
    fun owner k e he => .List (hlists owner k e he)
  · dsimp only
    by_cases hq : q = r
    · subst hq
      rw [ServerState.get_modify_self]
      exact ⟨rfl, rfl, rfl⟩
    · rw [ServerState.get_modify_ne _ hq]
      exact .refl _
  · dsimp only at he
    by_cases hq : q = r
    · subst hq
      rw [ServerState.get_modify_self] at he
      exact hmap hlt k e he
    · rw [ServerState.get_modify_ne _ hq] at he
      exact .Map hlt he

theorem find_erase {lists : PersistedHeard} {key owner speaker : String} {e : PersistedHeardEntry}
    (he : PersistedHeard.find (lists.erase key) owner speaker = some e) :
    lists.find owner speaker = some e := by
  obtain ⟨list, hlist, he⟩ := Option.bind_eq_some_iff.mp he
  exact Option.bind_eq_some_iff.mpr ⟨list, (HashIndex.lookup_erase_eq_some.mp hlist).2, he⟩

theorem kept_seedHeard (h : HeardHost Data) (r : ClientRef) (now : Instant) (nowEpoch : UInt64) :
    Kept h (h.seedHeard r now nowEpoch) := by
  unfold seedHeard
  dsimp only
  split
  · rename_i entries hentries
    refine .of_modify (f := fun ac => ac.seedHeard now nowEpoch entries) (fun hlt k e he => ?_)
      fun owner k e he => find_erase he
    rw [AcStats.lookup_seedHeard, Option.or_eq_some_iff, Option.map_eq_some_iff] at he
    rcases he with hold | ⟨-, p, hp, rfl⟩
    · exact .Map hlt hold
    · exact .List (Option.bind_eq_some_iff.mpr ⟨entries, hentries, hp⟩)
  · exact .of_eq rfl rfl

theorem noteEntry_clear {speaker listener : ClientRef} (hid : h.Identified)
    (hspeaker : speaker < h.state.next) (hlistener : listener < h.state.next) (now : Instant) :
    let c := h.state.get speaker
    let e := AnticheatConfig.noteEntry now c.name c.sessionId c.peerIp
      ((h.state.get listener).ac.heard.lookup (namePart c.name))
    e.sessionId = c.sessionId ∧ e.name = c.name ∧ e.ip = c.peerIp := by
  refine AnticheatConfig.noteEntry_identity now fun e he hsession => ?_
  have hcarries := Carries.Map hlistener he
  rw [hsession] at hcarries
  exact hid speaker hspeaker _ _ hcarries

theorem kept_noteHeard {speaker listener : ClientRef} (hid : h.Identified)
    (hspeaker : speaker < h.state.next) (hlistener : listener < h.state.next) (now : Instant) :
    Kept h { h with state := h.state.noteHeard speaker listener now } := by
  refine .of_modify (f := fun ac => h.state.anticheat.noteHeard now (h.state.get speaker).name
    (h.state.get speaker).sessionId (h.state.get speaker).peerIp ac) (fun hlt k e he => ?_)
    fun owner k e he => he
  rcases AnticheatConfig.of_lookup_noteHeard he with ⟨rfl, rfl⟩ | hold
  · obtain ⟨hsession, hname, hip⟩ := noteEntry_clear hid hspeaker hlistener now
    rw [hsession, hname, hip]
    exact .Client hspeaker
  · exact .Map hlt hold

section AddClient

variable {username peerIp : String} {crypt : CryptState} {write : Writer} {now : Instant}

theorem get_addClient_next (s : ServerState) :
    (s.addClient username crypt write peerIp now).1.get s.next =
      .new username s.getFreeSessionId.2 0 crypt peerIp write now := Function.update_self ..

theorem get_addClient_ne {s : ServerState} {q : ClientRef} (hq : q ≠ s.next) :
    (s.addClient username crypt write peerIp now).1.get q = s.get q := Function.update_of_ne hq ..

theorem carries_addClient
    (hcarries : Carries { h with state := (h.state.addClient username crypt write peerIp now).1 }
      k session name ip) :
    h.Carries k session name ip ∨
      k = namePart username ∧ session = h.state.getFreeSessionId.2 ∧ name = username ∧ ip = peerIp := by
  cases hcarries with
  | @Map q k e hlt he =>
      dsimp only at he
      by_cases hq : q = h.state.next
      · subst hq
        rw [get_addClient_next] at he
        cases he
      · rw [get_addClient_ne hq] at he
        exact .inl (.Map (Nat.lt_of_le_of_ne (Nat.le_of_lt_succ hlt) hq) he)
  | List he => exact .inl (.List he)
  | @Client q hlt =>
      dsimp only
      by_cases hq : q = h.state.next
      · subst hq
        rw [get_addClient_next]
        exact .inr ⟨rfl, rfl, rfl, rfl⟩
      · rw [get_addClient_ne hq]
        exact .inl (.Client (Nat.lt_of_le_of_ne (Nat.le_of_lt_succ hlt) hq))

theorem identified_addClient (hid : h.Identified)
    (hclear : h.Clear username h.state.getFreeSessionId.2 peerIp) :
    Identified { h with state := (h.state.addClient username crypt write peerIp now).1 } := by
  intro r hr name' ip' hcarries
  by_cases hnew : r = h.state.next
  · subst hnew
    dsimp only at hcarries ⊢
    rw [get_addClient_next] at hcarries ⊢
    rcases carries_addClient hcarries with hold | ⟨-, -, rfl, rfl⟩
    · exact hclear name' ip' hold
    · exact ⟨rfl, rfl⟩
  · have hlt : r < h.state.next := Nat.lt_of_le_of_ne (Nat.le_of_lt_succ hr) hnew
    dsimp only at hcarries ⊢
    rw [get_addClient_ne hnew] at hcarries ⊢
    rcases carries_addClient hcarries with hold | ⟨hname, hsession, rfl, rfl⟩
    · exact hid r hlt name' ip' hold
    · -- the new client has the name and the session of one that was there
      have hthere := Carries.Client hlt
      rw [hname, hsession] at hthere
      obtain ⟨hsame, hsameIp⟩ := hclear _ _ hthere
      exact ⟨hsame.symm, hsameIp.symm⟩

end AddClient

theorem Step.identified {event : HeardEvent} (hid : h.Identified) (hstep : h.Step json event h') :
    h'.Identified := by
  obtain ⟨hallowed, rfl⟩ := hstep
  cases event with
  | AddClient username crypt write peerIp now => exact identified_addClient hid hallowed
  | SeedHeard r now nowEpoch => exact hid.kept (kept_seedHeard h r now nowEpoch)
  | NoteHeard speaker listener now => exact hid.kept (kept_noteHeard hid hallowed.1 hallowed.2 now)
  | Disconnect clientSession => exact hid.kept (kept_disconnect h clientSession)
  | FlushHeard now nowEpoch => exact hid.kept (kept_flushHeard h now nowEpoch)
  | Restart removePositionalData anticheat bans nowEpoch persists =>
      have hnext : (h.restart json removePositionalData anticheat bans nowEpoch persists).state.next =
          0 := by
        unfold restart initHeardPersistence
        dsimp only
        split_ifs
        · split <;> rfl
        · rfl
      intro r hr
      have hr : r < (h.restart json removePositionalData anticheat bans nowEpoch persists).state.next :=
        hr
      rw [hnext] at hr
      exact absurd hr (Nat.not_lt_zero r)

-- Right after somebody has talked, their entry has their session, name and address, as long as
-- no client was given a session that is carried under its name with another name or address.
theorem heard_identifies {removePositionalData : Bool} {anticheat : AnticheatConfig}
    {bans : BanList} {file : Option Data} {events : List HeardEvent}
    (hrun : Run (Step json) ⟨.new removePositionalData anticheat bans, ∅, false, file⟩ events h)
    {speaker listener : ClientRef} (hspeaker : speaker < h.state.next)
    (hlistener : listener < h.state.next) (now : Instant) :
    ∃ e, (((h.after json (.NoteHeard speaker listener now)).state.get listener).ac.heard.lookup
        (namePart (h.state.get speaker).name) = some e) ∧
      e.sessionId = (h.state.get speaker).sessionId ∧ e.name = (h.state.get speaker).name ∧
      e.ip = (h.state.get speaker).peerIp := by
  have hid : h.Identified :=
    hrun.invariant (I := Identified) (P := fun _ => True) (fun _ hid hstep => hstep.identified hid)
      (fun _ _ => trivial) fun r hr => absurd hr (Nat.not_lt_zero r)
  refine ⟨_, ?_, noteEntry_clear hid hspeaker hlistener now⟩
  dsimp only [after, ServerState.noteHeard]
  rw [ServerState.get_modify_self]
  dsimp only
  rw [AnticheatConfig.heard_noteHeard, AnticheatConfig.lookup_makeRoom_key, AList.lookup_insert]

-- What has to be looked at to see that a session is clear.
theorem clear_of_entries
    (hmaps : ∀ q < h.state.next, ∀ e ∈ (h.state.get q).ac.heard.lookup (namePart name),
      e.sessionId = session → e.name = name ∧ e.ip = ip)
    (hlists : ∀ list ∈ h.heardSeed.values, ∀ e ∈ list.lookup (namePart name),
      e.sessionId = session → e.name = name ∧ e.ip = ip)
    (hclients : ∀ q < h.state.next, namePart (h.state.get q).name = namePart name →
      (h.state.get q).sessionId = session →
        (h.state.get q).name = name ∧ (h.state.get q).peerIp = ip) :
    h.Clear name session ip := by
  intro name' ip' hcarries
  generalize hkey : namePart name = key at hcarries
  generalize hsession : session = own at hcarries
  cases hcarries with
  | Map hq he => exact hmaps _ hq _ (hkey ▸ he) hsession.symm
  | List he =>
      obtain ⟨list, hlist, he⟩ := Option.bind_eq_some_iff.mp he
      exact hlists list (HashIndex.mem_values.mpr ⟨_, hlist⟩) _ (hkey ▸ he) hsession.symm
  | Client hq => exact hclients _ hq hkey.symm hsession.symm

-- Bob talks to Alice. The server is started again, and Bob comes back from another address.
-- If Alice was there before him, he gets another session than he had.
def aliceFirst : List HeardEvent :=
  bobToAlice ++ [.FlushHeard 0 0, comesUp, enters "[7] alice" "10.0.0.9", .SeedHeard 0 0 0,
    enters "[8] bob" "10.0.0.2"]

theorem heard_identifies_aliceFirst :
    ∃ e, ((((noFile.afterAll plainJson aliceFirst).after plainJson (.NoteHeard 1 0 0)).state.get
        0).ac.heard.lookup "bob" = some e) ∧
      e.sessionId = 2 ∧ e.name = "[8] bob" ∧ e.ip = "10.0.0.2" := by
  have hrun : Run (Step plainJson) noFile aliceFirst (noFile.afterAll plainJson aliceFirst) := by
    refine .Step ⟨trivial, rfl⟩ (.Step ⟨clear_of_entries ?_ ?_ ?_, rfl⟩
      (.Step ⟨clear_of_entries ?_ ?_ ?_, rfl⟩ (.Step ⟨⟨?_, ?_⟩, rfl⟩ (.Step ⟨trivial, rfl⟩
      (.Step ⟨trivial, rfl⟩ (.Step ⟨clear_of_entries ?_ ?_ ?_, rfl⟩ (.Step ⟨trivial, rfl⟩
      (.Step ⟨clear_of_entries ?_ ?_ ?_, rfl⟩ (.Done _)))))))))
    all_goals decide +kernel
  have hbob : (1 : ClientRef) < (noFile.afterAll plainJson aliceFirst).state.next := by
    decide +kernel
  have halice : (0 : ClientRef) < (noFile.afterAll plainJson aliceFirst).state.next := by
    decide +kernel
  have hname : ((noFile.afterAll plainJson aliceFirst).state.get 1).name = "[8] bob" := by
    decide +kernel
  obtain ⟨e, he, hsession, hentry, hip⟩ := heard_identifies hrun hbob halice 0
  rw [hname] at he hentry
  exact ⟨e, he, hsession.trans (by decide +kernel), hentry, hip.trans (by decide +kernel)⟩

-- If he is the first, he gets the session that is on her list.
def bobFirst : List HeardEvent :=
  bobToAlice ++ [.FlushHeard 0 0, comesUp, enters "[7] bob" "10.0.0.2",
    enters "[8] alice" "10.0.0.9", .SeedHeard 1 0 0]

theorem heard_misidentifies :
    (noFile.afterAll plainJson bobFirst).state.clients.lookup 1 = some 0 ∧
      ((noFile.afterAll plainJson bobFirst).state.get 0).name = "[7] bob" ∧
      ((noFile.afterAll plainJson bobFirst).state.get 0).peerIp = "10.0.0.2" ∧
      ((noFile.afterAll plainJson (bobFirst ++ [.NoteHeard 0 1 0])).state.get
        1).ac.heard.lookup "bob" = some ⟨1, "[1] bob", "10.0.0.1", 0, 2⟩ := by decide +kernel

end HeardHost

end Mumble
