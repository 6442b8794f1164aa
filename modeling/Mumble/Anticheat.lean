import Mumble.Crypt
import Mumble.Lib.HashIndex

namespace Mumble

open Mumble.Lib

-- Characters that `str::trim` removes.
def isWhitespace (c : Char) : Bool :=
  let n := c.toNat
  (9 ≤ n && n ≤ 13) || n == 0x20 || n == 0x85 || n == 0xa0 || n == 0x1680 ||
    (0x2000 ≤ n && n ≤ 0x200a) || n == 0x2028 || n == 0x2029 || n == 0x202f || n == 0x205f ||
    n == 0x3000

def trim (name : List Char) : List Char :=
  ((name.dropWhile isWhitespace).reverse.dropWhile isWhitespace).reverse

-- What follows the first `"] "`, if there is one.
def afterBracket : List Char → Option (List Char)
  | ']' :: ' ' :: rest => some rest
  | _ :: rest => afterBracket rest
  | [] => none

-- The name without the session number in front: `"[36] ReviewB"` is `"ReviewB"`.
def namePart (username : String) : String :=
  match afterBracket username.toList with
  | some rest => String.ofList (trim rest)
  | none => String.ofList (trim username.toList)

-- `kind` is a text in the file; only these two are ever looked for.
inductive BanKind where
  | Ban
  | Mute
  | Other (kind : String)
  deriving DecidableEq, Repr

structure BanEntry where
  id : UInt64
  kind : BanKind
  ip : Option String
  name : Option String
  display : String
  reason : String
  deriving DecidableEq, Repr

structure BanList where
  bans : List BanEntry
  nextId : UInt64
  deriving DecidableEq, Repr

namespace BanList

def eqIgnoreAsciiCase (a b : String) : Bool := a.toList.map Char.toLower == b.toList.map Char.toLower

def «matches» (entry : BanEntry) (ip namePart : String) : Bool :=
  entry.ip == some ip ||
    match entry.name with
    | some name => !name.isEmpty && eqIgnoreAsciiCase name namePart
    | none => false

def isBanned (l : BanList) (ip namePart : String) : Option String :=
  (l.bans.find? fun b => b.kind = .Ban && «matches» b ip namePart).map BanEntry.reason

def isMuted (l : BanList) (ip namePart : String) : Bool :=
  l.bans.any fun b => b.kind = .Mute && «matches» b ip namePart

def add (l : BanList) (kind : BanKind) (ip name : Option String) (display reason : String) :
    BanList where
  bans := l.bans ++ [⟨l.nextId, kind, ip, name, display, reason⟩]
  nextId := l.nextId + 1

def remove (l : BanList) (id : UInt64) : BanList :=
  { l with bans := l.bans.filter fun b => b.id ≠ id }

def removeMatching (l : BanList) (ip namePart : String) (kind : BanKind) : BanList :=
  { l with bans := l.bans.filter fun b => !(b.kind = kind && «matches» b ip namePart) }

end BanList

inductive AnticheatAction where
  | Log
  | Mute
  | Kick
  | Ban
  deriving DecidableEq, Repr

-- The settings that the message handlers and `flag` read.
structure AnticheatConfig where
  enabled : Bool
  windowSecs : UInt32
  posOscDist : UInt32
  heardSecs : UInt32
  action : AnticheatAction
  deriving DecidableEq, Repr

structure HeardEntry where
  sessionId : UInt32
  name : String
  ip : String
  last : Instant
  secs : UInt32
  deriving DecidableEq, Repr

structure Place where
  time : Instant
  x : Float32
  y : Float32
  z : Float32
  isReturn : Bool

-- The `ac_*` fields of a client that inbound messages and admin calls write.
structure AcStats where
  score : UInt64
  maxRecipients : UInt32
  flags : UInt32
  lastFlag : Instant
  exempt : Bool
  strikes : UInt32
  window : HashIndex UInt64 Instant
  posX : Float32
  posY : Float32
  posZ : Float32
  hasPos : Bool
  lastPosTime : Instant
  posJumps : UInt32
  maxSpeed : Float32
  posHist : List Place
  farTargets : UInt32
  heard : HashIndex String HeardEntry
  -- `None` before the first record: an hour before the connection.
  lastHeardRec : Option Instant

def NANOS : Nat := 1000000000
def POS_OSC_WINDOW : Nat := 30 * NANOS
def POS_HIST_CAP : Nat := 16
def HEARD_CAP : Nat := 256
def FLAG_COOLDOWN : Nat := 3 * NANOS

def AcStats.new (now : Instant) : AcStats where
  score := 0
  maxRecipients := 0
  flags := 0
  lastFlag := now
  exempt := false
  strikes := 0
  window := ∅
  posX := 0
  posY := 0
  posZ := 0
  hasPos := false
  lastPosTime := now
  posJumps := 0
  maxSpeed := 0
  posHist := []
  farTargets := 0
  heard := ∅
  lastHeardRec := none

def keyChannel (id : UInt32) : UInt64 := id.toUInt64
def keySession (id : UInt32) : UInt64 := (1 : UInt64) <<< 40 ||| id.toUInt64

-- The entries that satisfy a condition, `retain` of the source.
def retain {κ α : Type} (p : α → Bool) (m : HashIndex κ α) : HashIndex κ α :=
  ⟨m.entries.filter fun e => p e.2, List.NodupKeys.sublist List.filter_sublist m.nodupKeys⟩

theorem lookup_retain {κ α : Type} [DecidableEq κ] {p : α → Bool} {m : HashIndex κ α} {k : κ}
    {v : α} : (retain p m).lookup k = some v ↔ m.lookup k = some v ∧ p v = true := by
  have hmem : ⟨k, v⟩ ∈ (retain p m).entries ↔ ⟨k, v⟩ ∈ m.entries ∧ p v = true := List.mem_filter
  rw [← AList.mem_lookup_iff, ← AList.mem_lookup_iff] at hmem
  exact hmem

namespace AnticheatConfig

def recordTargets (ac : AnticheatConfig) (now : Instant) (keys : List UInt64) (c : AcStats) :
    AcStats :=
  if !ac.enabled then c
  else
    let window := max ac.windowSecs.toNat 1 * NANOS
    let w := keys.foldl (fun w k => AList.insert k now w) c.window
    { c with window := retain (fun t => now - t ≤ window) w }

def noteEmission (ac : AnticheatConfig) (recipients : UInt32) (c : AcStats) : AcStats :=
  if !ac.enabled then c else { c with maxRecipients := max c.maxRecipients recipients }

-- The entry heard longest ago. Among equals the source takes whichever its map
-- yields first.
def oldest (heard : HashIndex String HeardEntry) : Option String :=
  (heard.entries.foldl (fun best e =>
    match best with
    | none => some e
    | some b => if e.2.last < b.2.last then some e else some b) none).map fun e => e.1

-- Records at the listener that `speaker` talked to it.
def noteHeard (ac : AnticheatConfig) (now : Instant) (speakerName : String)
    (speakerSession : UInt32) (speakerIp : String) (listener : AcStats) : AcStats :=
  let key := namePart speakerName
  let heard := listener.heard
  let heard :=
    if HEARD_CAP ≤ heard.entries.length ∧ key ∉ heard then
      let retention := max ac.heardSecs.toNat 10 * NANOS
      let heard := retain (fun e => now - e.last ≤ retention) heard
      if HEARD_CAP ≤ heard.entries.length then
        match oldest heard with
        | some k => heard.erase k
        | none => heard
      else heard
    else heard
  let e := (heard.lookup key).getD ⟨speakerSession, speakerName, speakerIp, now, 0⟩
  let e :=
    if e.sessionId ≠ speakerSession then
      { e with sessionId := speakerSession, name := speakerName, ip := speakerIp }
    else e
  { listener with heard := AList.insert key { e with last := now, secs := e.secs + 1 } heard }

-- `Duration::as_secs_f32`.
def asSecsF32 (d : Nat) : Float32 :=
  Float32.ofNat (d / NANOS) + Float32.ofNat (d % NANOS) / Float32.ofNat NANOS

def distSq (x y z x' y' z' : Float32) : Float32 :=
  (x - x') * (x - x') + (y - y') * (y - y') + (z - z') * (z - z')

-- Follows the places a client has been at and counts how often it came back.
def notePlace (ac : AnticheatConfig) (now : Instant) (x y z : Float32) (c : AcStats) : AcStats :=
  let oscDist := Float32.ofNat ac.posOscDist.toNat
  if oscDist ≤ 0 then c
  else
    let moved :=
      match c.posHist.getLast? with
      | some p => decide (distSq x y z p.x p.y p.z > oscDist * oscDist)
      | none => true
    if !moved then c
    else
      let rr := (oscDist * 0.5) * (oscDist * 0.5)
      let isReturn := c.posHist.any fun p => decide (distSq x y z p.x p.y p.z < rr)
      let hist := c.posHist ++ [⟨now, x, y, z, isReturn⟩]
      let hist := hist.drop (hist.length - POS_HIST_CAP)
      let hist := hist.filter fun p => now - p.time ≤ POS_OSC_WINDOW
      { c with
        posHist := hist
        posJumps := UInt32.ofNat (hist.filter Place.isReturn).length }

def notePosition (ac : AnticheatConfig) (now : Instant) (x y z : Float32) (c : AcStats) :
    AcStats :=
  if !ac.enabled then c
  else
    let dt := asSecsF32 (now - c.lastPosTime)
    let maxSpeed :=
      if c.hasPos ∧ dt > 0 ∧ dt < 0.5 then
        let speed := (distSq x y z c.posX c.posY c.posZ).sqrt / dt
        if speed > c.maxSpeed then speed else c.maxSpeed
      else c.maxSpeed
    ac.notePlace now x y z
      { c with hasPos := true, maxSpeed, posX := x, posY := y, posZ := z, lastPosTime := now }

end AnticheatConfig

def AcStats.resetCounters (c : AcStats) : AcStats :=
  { c with
    score := 0
    flags := 0
    maxRecipients := 0
    strikes := 0
    window := ∅
    posJumps := 0
    maxSpeed := 0
    posHist := []
    farTargets := 0
    heard := ∅ }

end Mumble
