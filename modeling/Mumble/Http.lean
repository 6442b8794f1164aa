import Mathlib.Data.Finset.Basic
import Mumble.Heard
import Mumble.Sampler

/-!
The HTTP interface: what its requests return and what they change.
-/

namespace Mumble

open Mumble.Lib

inductive StatusCode where
  | OK
  | NOT_FOUND
  | BAD_REQUEST
  deriving DecidableEq, Repr

-- What is returned instead of an address.
def IP_REDACTED : String := "xx.xx.xx.xx"

-- What is known of a client for the panel alone: what it said of itself when it connected,
-- and what the sampler measured last.
structure Shown where
  versionStr : String
  versionRelease : String
  versionOs : String
  reachInstant : UInt32
  reachWindow : UInt32
  mutuality : UInt32
  listenCount : UInt32

-- The times at which those entries of a list were made that satisfy a condition.
def keepTimes (p : BanEntry → Bool) (bans : List BanEntry) (times : List String) : List String :=
  ((bans.zip times).filter fun e => p e.1).map fun e => e.2

theorem length_keepTimes (p : BanEntry → Bool) {bans : List BanEntry} {times : List String}
    (h : times.length = bans.length) : (keepTimes p bans times).length = (bans.filter p).length := by
  induction bans generalizing times with
  | nil => rfl
  | cons b bans ih =>
      cases times with
      | nil => cases h
      | cons time times =>
          have hrest := ih (Nat.succ.inj h)
          unfold keepTimes at hrest ⊢
          rw [List.zip_cons_cons, List.filter_cons, List.filter_cons]
          cases p b with
          | true => exact congrArg Nat.succ hrest
          | false => exact hrest

-- The server as the requests see it. `banTimes` are the times of the entries of the ban
-- list, in the same order.
structure AppState where
  server : ServerState
  limits : Limits
  hideIps : Bool
  serverLabel : String
  webhook : Option String
  panelUrl : Option String
  -- the last one was added last
  logs : List String
  shown : ClientRef → Shown
  banTimes : List String
  stamped : banTimes.length = server.bans.bans.length

structure AnticheatClient where
  sessionId : UInt32
  name : String
  ip : String
  version : String
  release : String
  os : String
  channelId : UInt32
  reachInstant : UInt32
  reachWindow : UInt32
  mutuality : UInt32
  listens : UInt32
  hasPos : Bool
  posX : Float32
  posY : Float32
  posZ : Float32
  posJumps : UInt32
  maxSpeed : Float32
  farTargets : UInt32
  score : UInt64
  flags : UInt32
  muted : Bool
  exempt : Bool

-- An entry of the ban list with its time.
structure StampedBan where
  entry : BanEntry
  time : String

structure AnticheatStatus where
  enabled : Bool
  windowSecs : UInt32
  posOscDist : UInt32
  heardSecs : UInt32
  limits : Limits
  serverLabel : String
  hideIps : Bool
  action : AnticheatAction
  webhook : Option String
  panelUrl : Option String
  connected : UInt32
  clients : List AnticheatClient
  logs : List String
  bans : List StampedBan

structure HeardItem where
  sessionId : UInt32
  name : String
  ip : String
  agoSecs : Nat
  secs : UInt32

structure HeardResponse where
  sessionId : UInt32
  name : String
  retentionSecs : UInt32
  heard : List HeardItem

structure MumbleTarget where
  sessions : Finset UInt32
  channels : Finset UInt32

structure MumbleClient where
  name : String
  sessionId : UInt32
  channel : Option String
  mute : Bool
  good : UInt32
  late : UInt32
  lost : UInt32
  resync : UInt32
  -- in milliseconds
  lastGoodDuration : Nat
  targets : List MumbleTarget

inductive Response where
  | Anticheat (status : AnticheatStatus)
  | Heard (response : HeardResponse)
  | Status (clients : HashIndex UInt32 MumbleClient)
  | Mute (mute : Bool) (user : String)
  | Deaf (deaf : Bool) (user : String)
  | Failed (code : StatusCode)

inductive Get where
  | Anticheat
  | Heard (sessionId : UInt32)
  | Status
  | Mute (user : String)
  | Deaf (user : String)

namespace AppState

-- How a client is shown.
def anticheatClient (a : AppState) (r : ClientRef) : AnticheatClient :=
  let c := a.server.get r
  let shown := a.shown r
  { sessionId := c.sessionId
    name := c.name
    ip := if a.hideIps then IP_REDACTED else c.peerIp
    version := shown.versionStr
    release := shown.versionRelease
    os := shown.versionOs
    channelId := c.channelId
    reachInstant := shown.reachInstant
    reachWindow := shown.reachWindow
    mutuality := shown.mutuality
    listens := shown.listenCount
    hasPos := c.ac.hasPos
    posX := c.ac.posX
    posY := c.ac.posY
    posZ := c.ac.posZ
    posJumps := c.ac.posJumps
    maxSpeed := c.ac.maxSpeed
    farTargets := c.ac.farTargets
    score := c.ac.score
    flags := c.ac.flags
    muted := c.mute
    exempt := c.ac.exempt }

-- By the score, and then by the reach, the highest first. The order of equal ones is not
-- said in the source.
def before (x y : AnticheatClient) : Bool :=
  y.score < x.score || y.score = x.score && y.reachWindow ≤ x.reachWindow

def stampedBan (a : AppState) (b : BanEntry) (time : String) : StampedBan :=
  ⟨if a.hideIps then { b with ip := b.ip.map fun _ => IP_REDACTED } else b, time⟩

def getAnticheat (a : AppState) : AnticheatStatus where
  enabled := a.server.anticheat.enabled
  windowSecs := a.server.anticheat.windowSecs
  posOscDist := a.server.anticheat.posOscDist
  heardSecs := a.server.anticheat.heardSecs
  limits := a.limits
  serverLabel := a.serverLabel
  hideIps := a.hideIps
  action := a.server.anticheat.action
  webhook := a.webhook
  panelUrl := a.panelUrl
  connected := a.server.activeClients
  clients := (a.server.clients.values.map a.anticheatClient).mergeSort before
  logs := a.logs.reverse
  bans := a.server.bans.bans.zipWith a.stampedBan a.banTimes

def heardItem (a : AppState) (now : Instant) (e : HeardEntry) : HeardItem where
  sessionId := e.sessionId
  name := e.name
  ip := if a.hideIps then IP_REDACTED else e.ip
  agoSecs := (now - e.last) / NANOS
  secs := e.secs

-- What is too old is removed from the map on the way.
def getHeard (a : AppState) (now : Instant) (sessionId : UInt32) : AppState × Response :=
  match a.server.clients.lookup sessionId with
  | none => (a, .Failed .NOT_FOUND)
  | some r =>
      let server := a.server.modify r fun c =>
        { c with ac := c.ac.purgeHeard a.server.anticheat now }
      let items := (server.get r).ac.heard.values.map (a.heardItem now)
      ({ a with server },
        .Heard
          { sessionId
            name := (server.get r).name
            retentionSecs := a.server.anticheat.heardSecs
            heard := items.mergeSort fun x y => x.agoSecs ≤ y.agoSecs })

def mumbleClient (a : AppState) (now : Instant) (r : ClientRef) : MumbleClient :=
  let c := a.server.get r
  { name := c.name
    sessionId := c.sessionId
    channel := (a.server.channels.lookup c.channelId).map Channel.name
    mute := c.mute
    good := c.crypt.good
    late := c.crypt.late
    lost := c.crypt.lost
    resync := c.crypt.resync
    lastGoodDuration := (now - c.crypt.lastGood) / 1000000
    targets := c.targets.toList.map fun slot =>
      ⟨slot.sessions.keys.toFinset, slot.channels.keys.toFinset⟩ }

def getStatus (a : AppState) (now : Instant) : HashIndex UInt32 MumbleClient :=
  a.server.clients.values.foldl
    (fun clients r => AList.insert (a.server.get r).sessionId (a.mumbleClient now r) clients) ∅

def getMute (a : AppState) (user : String) : Response :=
  match a.server.getClientByName user with
  | some r => .Mute (a.server.get r).mute user
  | none => .Failed .NOT_FOUND

def getDeaf (a : AppState) (user : String) : Response :=
  match a.server.getClientByName user with
  | some r => .Deaf (a.server.get r).deaf user
  | none => .Failed .NOT_FOUND

def get (a : AppState) (now : Instant) : Get → AppState × Response
  | .Anticheat => (a, .Anticheat a.getAnticheat)
  | .Heard sessionId => a.getHeard now sessionId
  | .Status => (a, .Status (a.getStatus now))
  | .Mute user => (a, a.getMute user)
  | .Deaf user => (a, a.getDeaf user)

end AppState

structure ConfigUpdate where
  enabled : Option Bool
  thresholdPct : Option UInt32
  minRecipients : Option UInt32
  mutualityMaxPct : Option UInt32
  windowSecs : Option UInt32
  strikesRequired : Option UInt32
  listenMax : Option UInt32
  posOscDist : Option UInt32
  posOscMax : Option UInt32
  posFarDist : Option UInt32
  posFarMin : Option UInt32
  posFarPct : Option UInt32
  heardSecs : Option UInt32
  action : Option String
  webhook : Option String
  panelUrl : Option String

inductive Post where
  | Mute (user : String) (mute : Bool)
  | Deaf (user : String) (deaf : Bool)
  | AnticheatUser (user : String) (action : String)
  | AnticheatUnban (id : UInt64)
  | AnticheatConfig (update : ConfigUpdate)
  | AnticheatClear
  | HeardClear (sessionId : UInt32)

def clamp (lo hi v : UInt32) : UInt32 := max lo (min v hi)

def parseAction : String → AnticheatAction
  | "mute" => .Mute
  | "kick" => .Kick
  | "ban" => .Ban
  | _ => .Log

def parseUserAction : String → Option ServerState.UserAction
  | "block" => some .Block
  | "unblock" => some .Unblock
  | "kick" => some .Kick
  | "reset" => some .Reset
  | "ban" => some .Ban
  | _ => none

namespace ConfigUpdate

def config (u : ConfigUpdate) (ac : AnticheatConfig) : AnticheatConfig where
  enabled := u.enabled.getD ac.enabled
  windowSecs := (u.windowSecs.map fun w => max w 1).getD ac.windowSecs
  posOscDist := (u.posOscDist.map fun v => if v = 0 then 0 else max v 50).getD ac.posOscDist
  heardSecs := (u.heardSecs.map (clamp 10 7200)).getD ac.heardSecs
  action := (u.action.map parseAction).getD ac.action

def limits (u : ConfigUpdate) (limits : Limits) : Limits where
  thresholdPct := (u.thresholdPct.map (clamp 1 100)).getD limits.thresholdPct
  minRecipients := u.minRecipients.getD limits.minRecipients
  mutualityMaxPct := (u.mutualityMaxPct.map fun m => min m 100).getD limits.mutualityMaxPct
  strikesRequired := (u.strikesRequired.map fun s => max s 1).getD limits.strikesRequired
  listenMax := u.listenMax.getD limits.listenMax
  posOscMax := u.posOscMax.getD limits.posOscMax
  posFarDist := (u.posFarDist.map fun v => max v 100).getD limits.posFarDist
  posFarMin := u.posFarMin.getD limits.posFarMin
  posFarPct := (u.posFarPct.map (clamp 1 100)).getD limits.posFarPct

-- An empty text takes the address away.
def text (update old : Option String) : Option String :=
  match update with
  | none => old
  | some w => if trim w.toList = [] then none else some w

end ConfigUpdate

namespace AppState

def postMute (a : AppState) (user : String) (mute : Bool) : AppState × StatusCode :=
  match a.server.getClientByName user with
  | some r => ({ a with server := a.server.modify r (·.setMute mute) }, .OK)
  | none => (a, .NOT_FOUND)

def postDeaf (a : AppState) (user : String) (deaf : Bool) : AppState × StatusCode :=
  match a.server.getClientByName user with
  | some r => ({ a with server := a.server.modify r (·.setDeaf deaf) }, .OK)
  | none => (a, .NOT_FOUND)

-- The times of the entries of the ban list after an action. A new entry is made at `time`.
def actionTimes (a : AppState) (time : String) (r : ClientRef) : ServerState.UserAction → List String
  | .Block | .Ban => a.banTimes ++ [time]
  | .Unblock =>
      let c := a.server.get r
      keepTimes (fun b => !(b.kind = .Mute && BanList.matches b c.peerIp (namePart c.name)))
        a.server.bans.bans a.banTimes
  | .Kick | .Reset => a.banTimes

theorem length_actionTimes (a : AppState) (time : String) (r : ClientRef)
    (action : ServerState.UserAction) :
    (a.actionTimes time r action).length = (a.server.applyAction r action).bans.bans.length := by
  have hadd (b : BanEntry) : (a.banTimes ++ [time]).length = (a.server.bans.bans ++ [b]).length := by
    rw [List.length_append, List.length_append, a.stamped]
    rfl
  cases action with
  | Block | Ban => exact hadd _
  | Unblock =>
      unfold actionTimes ServerState.applyAction
      exact length_keepTimes _ a.stamped
  | Kick | Reset => exact a.stamped

def applyAction (a : AppState) (time : String) (r : ClientRef) (action : ServerState.UserAction) :
    AppState :=
  { a with
    server := a.server.applyAction r action
    banTimes := a.actionTimes time r action
    stamped := a.length_actionTimes time r action }

def postAnticheatUser (a : AppState) (time user action : String) : AppState × StatusCode :=
  match a.server.getClientByName user with
  | none => (a, .NOT_FOUND)
  | some r =>
      match parseUserAction action with
      | some action => (a.applyAction time r action, .OK)
      | none => (a, .BAD_REQUEST)

def postAnticheatUnban (a : AppState) (id : UInt64) : AppState × StatusCode :=
  ({ a with
      server := a.server.handleAdmin (.PostAnticheatUnban id)
      banTimes := keepTimes (fun b => b.id ≠ id) a.server.bans.bans a.banTimes
      stamped := length_keepTimes _ a.stamped },
    .OK)

def postAnticheatConfig (a : AppState) (update : ConfigUpdate) : AppState × StatusCode :=
  ({ a with
      server := a.server.handleAdmin (.PostAnticheatConfig (update.config a.server.anticheat))
      limits := update.limits a.limits
      webhook := ConfigUpdate.text update.webhook a.webhook
      panelUrl := ConfigUpdate.text update.panelUrl a.panelUrl },
    .OK)

theorem bans_clear (s : ServerState) : (s.handleAdmin .PostAnticheatClear).bans = s.bans := by
  unfold ServerState.handleAdmin
  dsimp only
  generalize s.clients.values = refs
  induction refs generalizing s with
  | nil => rfl
  | cons r refs ih => exact ih _

def postAnticheatClear (a : AppState) : AppState × StatusCode :=
  ({ a with
      server := a.server.handleAdmin .PostAnticheatClear
      logs := []
      stamped := by
        rw [bans_clear]
        exact a.stamped },
    .OK)

def postHeardClear (a : AppState) (sessionId : UInt32) : AppState × StatusCode :=
  match a.server.clients.lookup sessionId with
  | some r =>
      ({ a with server := a.server.modify r fun c => { c with ac := { c.ac with heard := ∅ } } }, .OK)
  | none => (a, .NOT_FOUND)

def post (a : AppState) (time : String) : Post → AppState × StatusCode
  | .Mute user mute => a.postMute user mute
  | .Deaf user deaf => a.postDeaf user deaf
  | .AnticheatUser user action => a.postAnticheatUser time user action
  | .AnticheatUnban id => a.postAnticheatUnban id
  | .AnticheatConfig update => a.postAnticheatConfig update
  | .AnticheatClear => a.postAnticheatClear
  | .HeardClear sessionId => a.postHeardClear sessionId

end AppState

end Mumble
