import Mumble.Proto.Replies
import Mumble.Proto.Streams
import Mumble.Deeds.Steps

/-!
A connection from its first byte on: the handshake (`Client::init`), who is let in
(`handle_new_client`), and a server whose clients are streams of bytes.
-/

namespace Mumble

open Mumble.Lib

-- What is known of characters where the source asks the standard library (`to_lowercase`)
-- and the regex crate (`\d`).
structure Unicode where
  toLowercase : String → String
  isDigit : Char → Bool
  bracket : isDigit ']' = false

-- `str::contains`
def containsText (text part : String) : Bool := decide (part.toList <:+: text.toList)

-- `^\[\d+\].*$`, where the dot is anything but a line feed.
def Unicode.usernameRegex (u : Unicode) (username : String) : Bool :=
  match username.toList with
  | '[' :: rest =>
      match rest.dropWhile u.isDigit with
      | ']' :: tail => !(rest.takeWhile u.isDigit).isEmpty && tail.all (· != '\n')
      | _ => false
  | _ => false

structure Gate where
  unicode : Unicode
  -- as it is in the arguments; the server keeps it in lower case
  restrictToVersion : Option String

namespace Gate

def admits (g : Gate) (release username : String) : Bool :=
  match g.restrictToVersion.map g.unicode.toLowercase with
  | none => true
  | some restrictTo =>
      containsText (g.unicode.toLowercase release) restrictTo && g.unicode.usernameRegex username

-- A number in brackets, and then a line.
def Numbered (u : Unicode) (username : String) : Prop :=
  ∃ digits tail, username.toList = '[' :: (digits ++ ']' :: tail) ∧ digits ≠ [] ∧
    (∀ d ∈ digits, u.isDigit d = true) ∧ '\n' ∉ tail

-- Who is let in.
def Official (g : Gate) (release username : String) : Prop :=
  ∀ restrictTo, g.restrictToVersion = some restrictTo →
    (g.unicode.toLowercase restrictTo).toList <:+: (g.unicode.toLowercase release).toList ∧
      Numbered g.unicode username

theorem usernameRegex_iff (u : Unicode) (username : String) :
    u.usernameRegex username = true ↔ Numbered u username := by
  unfold Unicode.usernameRegex Numbered
  constructor
  · intro h
    split at h
    · rename_i rest hname
      split at h
      · rename_i tail htail
        simp only [Bool.and_eq_true, Bool.not_eq_true', List.isEmpty_eq_false_iff, List.all_eq_true,
          bne_iff_ne] at h
        refine ⟨rest.takeWhile u.isDigit, tail, ?_, h.1, ?_, fun hmem => h.2 _ hmem rfl⟩
        · rw [hname, ← htail, List.takeWhile_append_dropWhile]
        · exact List.all_eq_true.mp List.all_takeWhile
      · cases h
    · cases h
  · rintro ⟨digits, tail, hname, hne, hdigits, htail⟩
    have htake : (digits ++ ']' :: tail).takeWhile u.isDigit = digits := by
      rw [List.takeWhile_append_of_pos hdigits, List.takeWhile_cons_of_neg (by simp [u.bracket]),
        List.append_nil]
    have hdrop : (digits ++ ']' :: tail).dropWhile u.isDigit = ']' :: tail := by
      rw [List.dropWhile_append_of_pos hdigits, List.dropWhile_cons_of_neg (by simp [u.bracket])]
    rw [hname]
    simp only [htake, hdrop, Bool.and_eq_true, Bool.not_eq_true', List.isEmpty_eq_false_iff,
      List.all_eq_true, bne_iff_ne]
    exact ⟨hne, fun c hc heq => htail (heq ▸ hc)⟩

theorem admits_iff (g : Gate) (release username : String) :
    g.admits release username = true ↔ g.Official release username := by
  unfold admits Official
  cases g.restrictToVersion with
  | none => simp
  | some restrictTo =>
      simp only [Option.map_some, Bool.and_eq_true, containsText, decide_eq_true_eq,
        usernameRegex_iff, Option.some.injEq, forall_eq']

end Gate

-- What is left of the stream after the handshake, and what was written meanwhile.
structure Greeting where
  version : Version
  authenticate : Authenticate
  left : List UInt8
  written : List UInt8

-- A client that takes longer than a second, or that cannot be written to, does not get
-- further than one that sends something else; this is left out.
def Client.init (lib : Library) (serverVersion : Version) (cryptSetup : CryptSetup)
    (stream : List UInt8) : Except MumbleError Greeting :=
  match expectedMessage lib.version.parseFromBytes .Version stream with
  | (.error e, _) => .error e
  | (.ok version, stream) => do
      let hello ← messageToBytes .Version lib.version serverVersion
      match expectedMessage lib.authenticate .Authenticate stream with
      | (.error e, _) => .error e
      | (.ok authenticate, stream) => do
          let setup ← messageToBytes .CryptSetup lib.cryptSetup cryptSetup
          return ⟨version, authenticate, stream, hello ++ setup⟩

-- A client that keeps to the protocol. It may send voice before it is asked who it is.
structure Caller (lib : Library) where
  version : Version
  authenticate : Authenticate
  hello : Frame
  credentials : Frame
  sent : List Frame
  early : List Frame
  later : List Frame
  kind_hello : hello.kind = MessageKind.Version.toU16
  parse_hello : lib.version.parseFromBytes hello.payload = some version
  kind_credentials : credentials.kind = MessageKind.Authenticate.toU16
  parse_credentials : lib.authenticate credentials.payload = some authenticate
  tunnels : ∀ t ∈ early ++ later, t.kind = MessageKind.UDPTunnel.toU16
  early_le : early.length ≤ 10
  later_le : later.length ≤ 10

namespace Caller

variable {lib : Library}

-- What it sends after its name.
def requests (c : Caller lib) : List UInt8 := Frame.wire c.sent

def stream (c : Caller lib) : List UInt8 :=
  Frame.wire c.early ++ (c.hello.bytes ++ (Frame.wire c.later ++ (c.credentials.bytes ++ c.requests)))

end Caller

-- A server, and what its clients have sent that it has not read yet.
structure Host where
  state : ServerState
  streams : ClientRef → List UInt8

namespace Host

-- The stream of a connection that is refused is forgotten with it.
def handleNewClient (lib : Library) (g : Gate) (serverVersion : Version) (h : Host)
    (stream : List UInt8) (peerIp : String) (key : Vector UInt8 KEY_SIZE) (write : Writer)
    (now : Instant) : Host × MumbleResult :=
  let setup := (CryptState.default key (.new key) now).getCryptSetup
  match Client.init lib serverVersion setup stream with
  | .error e => (h, .error e)
  | .ok greeting =>
      let username := greeting.authenticate.username.getD ""
      if g.admits (greeting.version.release.getD "") username then
        let (state, result) := h.state.handleNewClient username peerIp key write now
        (⟨state, Function.update h.streams h.state.next greeting.left⟩, result)
      else
        (h, .error (.UnknownError ("Disconnecting unofficial client username: " ++ username)))

-- One turn of the loop that reads the stream of a client.
def readNext (lib : Library) (h : Host) (r : ClientRef) (now : Instant) :
    Exec (Host × MumbleResult) := do
  let (p, result) ← Reading.readNext lib.protobuf r now ⟨h.state, h.streams r, []⟩
  return (⟨p.state, Function.update h.streams r p.stream⟩, result)

end Host

-- What happens to a server: a connection with all that will come over it, a turn of the loop of
-- a client, or any other event.
inductive HostLabel where
  | Accept (stream : List UInt8) (peerIp : String) (key : Vector UInt8 KEY_SIZE) (write : Writer)
      (now : Instant) (result : MumbleResult)
  | Read (r : ClientRef) (now : Instant) (result : MumbleResult)
  | Other (label : Label)

def HostLabel.reads (q : ClientRef) : HostLabel → Bool
  | .Read r _ _ => r == q
  | _ => false

-- The events that have to do with a stream.
def Event.FromStream : Event → Prop
  | .Connect .. => True
  | .Tcp .. => True
  | _ => False

namespace Host

variable {lib : Library} {g : Gate} {serverVersion : Version} {h h' : Host}

-- What has to wait is no step yet.
def Step (lib : Library) (g : Gate) (serverVersion : Version) (h : Host) (l : HostLabel)
    (h' : Host) : Prop :=
  match l with
  | .Accept stream peerIp key write now result =>
      h.handleNewClient lib g serverVersion stream peerIp key write now = (h', result) ∧
        result ≠ .error .Waiting
  | .Read r now result => h.state.loops r .Tcp = true ∧ h.readNext lib r now = .ok (h', result) ∧
      result ≠ .error .Waiting
  | .Other label =>
      ¬label.event.FromStream ∧ h.state.Transition label h'.state ∧ h'.streams = h.streams

-- The handshake on the connection ended well, with the name, and the client is official.
def LetIn (lib : Library) (g : Gate) (serverVersion : Version) (labels : List HostLabel)
    (username peerIp : String) (key : Vector UInt8 KEY_SIZE) (write : Writer) (now : Instant) : Prop :=
  ∃ stream result greeting, .Accept stream peerIp key write now result ∈ labels ∧
    Client.init lib serverVersion (CryptState.default key (.new key) now).getCryptSetup stream =
      .ok greeting ∧
    greeting.authenticate.username.getD "" = username ∧
    g.Official (greeting.version.release.getD "") username

theorem LetIn.mono {labels labels' : List HostLabel} {username peerIp : String}
    {key : Vector UInt8 KEY_SIZE} {write : Writer} {now : Instant} (hsub : labels ⊆ labels')
    (hin : LetIn lib g serverVersion labels username peerIp key write now) :
    LetIn lib g serverVersion labels' username peerIp key write now := by
  obtain ⟨stream, result, greeting, hmem, hrest⟩ := hin
  exact ⟨stream, result, greeting, hsub hmem, hrest⟩

-- A connection is refused without a trace, or the server gets a new client.
theorem handleNewClient_cases {stream : List UInt8} {peerIp : String} {key : Vector UInt8 KEY_SIZE}
    {write : Writer} {now : Instant} {result : MumbleResult}
    (hnew : h.handleNewClient lib g serverVersion stream peerIp key write now = (h', result)) :
    h' = h ∨ ∃ greeting,
      Client.init lib serverVersion (CryptState.default key (.new key) now).getCryptSetup stream =
        .ok greeting ∧
      g.Official (greeting.version.release.getD "") (greeting.authenticate.username.getD "") ∧
      h.state.handleNewClient (greeting.authenticate.username.getD "") peerIp key write now =
        (h'.state, result) ∧
      h'.streams = Function.update h.streams h.state.next greeting.left := by
  unfold handleNewClient at hnew
  dsimp only at hnew
  split at hnew
  · cases hnew
    exact .inl rfl
  · rename_i greeting hinit
    split_ifs at hnew with hadmits
    · cases hnew
      exact .inr ⟨greeting, hinit, (g.admits_iff _ _).mp hadmits, rfl, rfl⟩
    · cases hnew
      exact .inl rfl

-- A read fails for one reason only.
theorem error_readExact {size : Nat} {stream rest : List UInt8} {e : MumbleError}
    (hread : readExact size stream = (.error e, rest)) : e = .Io := by
  unfold readExact at hread
  split_ifs at hread
  · cases hread
  · cases hread
    rfl

theorem error_map_readExact {α : Type} {size : Nat} {stream : List UInt8} {f : List UInt8 → α}
    {e : MumbleError} (hread : (readExact size stream).1.map f = .error e) : e = .Io := by
  cases hexact : readExact size stream with
  | mk bytes rest =>
      rw [hexact] at hread
      cases bytes with
      | ok bytes => cases hread
      | error e' =>
          cases hread
          exact error_readExact hexact

-- A turn hands a frame to the server, or finds that there is none.
theorem readNext_frame {r : ClientRef} {now : Instant} {result : MumbleResult}
    (hloops : h.state.loops r .Tcp = true) (hread : h.readNext lib r now = .ok (h', result)) :
    ∃ frame, h.state.readFrame r now frame = .ok (h'.state, result) := by
  have hturn (frame : TcpFrame) {s : ServerState} {outcome : MumbleResult}
      (hframe : h.state.handleFrame r now frame = .ok (s, outcome)) :
      h.state.readFrame r now frame = .ok (s.countFailure r .Tcp outcome, outcome) := by
    rw [ServerState.readFrame, if_pos hloops, hframe]
    rfl
  have hlost : h.state.readFrame r now .Lost =
      .ok (h.state.countFailure r .Tcp (.error .Io), .error .Io) := hturn .Lost rfl
  obtain ⟨⟨p, ended⟩, hcall, hread⟩ := Exec.bind_eq_ok.mp hread
  cases hread
  obtain ⟨⟨q, ended'⟩, hhandle, hcall⟩ := Exec.bind_eq_ok.mp hcall
  cases hcall
  unfold Reading.handleStreamRead at hhandle
  split at hhandle
  · rename_i e hkind
    cases hhandle
    obtain rfl : e = .Io := error_map_readExact hkind
    exact ⟨.Lost, hlost⟩
  · split at hhandle
    · rename_i e stream hsize
      cases hhandle
      obtain rfl : e = .Io := error_map_readExact (congrArg Prod.fst hsize)
      exact ⟨.Lost, hlost⟩
    · split at hhandle
      · rename_i e stream hbuf
        cases hhandle
        obtain rfl : e = .Io := error_readExact hbuf
        exact ⟨.Lost, hlost⟩
      · obtain ⟨⟨s, handled⟩, hframe, hhandle⟩ := Exec.bind_eq_ok.mp hhandle
        cases hhandle
        exact ⟨_, hturn _ hframe⟩

-- The stream of a client is left alone, but for the turns of its own loop.
theorem Step.streams {l : HostLabel} {q : ClientRef} (hstep : h.Step lib g serverVersion l h')
    (hborn : q < h.state.next) (hother : l.reads q = false) : h'.streams q = h.streams q := by
  cases l with
  | Accept stream peerIp key write now result =>
      rcases handleNewClient_cases hstep.1 with rfl | ⟨greeting, -, -, -, hstreams⟩
      · rfl
      · rw [hstreams]
        exact Function.update_of_ne (Nat.ne_of_lt hborn) _ _
  | Read r now result =>
      obtain ⟨p, -, hread⟩ := Exec.bind_eq_ok.mp hstep.2.1
      cases hread
      have hne : r ≠ q := by simpa [HostLabel.reads] using hother
      exact Function.update_of_ne hne.symm _ _
  | Other label => exact congrFun hstep.2.2 q

section

variable {c : Caller lib} {peerIp : String} {key : Vector UInt8 KEY_SIZE} {write : Writer}
  {now : Instant} {hello setup : List UInt8}
  (hhello : lib.version.writeToBytes serverVersion = some hello)
  (hsetup : lib.cryptSetup.writeToBytes (CryptState.default key (.new key) now).getCryptSetup =
    some setup)
  (hofficial : g.Official (c.version.release.getD "") (c.authenticate.username.getD ""))
include hhello hsetup hofficial

end

-- A client of the game, who pings and then asks for a channel. Its library knows these few
-- messages.

def sampleKey : Vector UInt8 KEY_SIZE := Vector.replicate KEY_SIZE 1

def samplePing : Frame := ⟨MessageKind.Ping.toU16, [4], by decide⟩

end Host

end Mumble
