import Mathlib.Data.Finset.Union
import Mumble.Server

/-!
The periodic evaluation of all clients (`AnticheatConfig::sample`): whom a client
reaches, who targets it back, and what makes it suspicious.
-/

namespace Mumble

open Mumble.Lib

-- A position that is older than this is not compared.
def POS_FRESH : Nat := 10 * NANOS

-- The settings that only `sample` reads.
structure Limits where
  thresholdPct : UInt32
  minRecipients : UInt32
  mutualityMaxPct : UInt32
  strikesRequired : UInt32
  listenMax : UInt32
  posOscMax : UInt32
  posFarDist : UInt32
  posFarMin : UInt32
  posFarPct : UInt32

-- A client as it is read, with the targets of all its slots.
structure Snap where
  ref : ClientRef
  c : Client
  chan : UInt32
  chans : Finset UInt32
  sesss : Finset UInt32

namespace Snap

def new (r : ClientRef) (c : Client) : Snap where
  ref := r
  c := c
  chan := c.channelId
  chans := (c.targets.toList.flatMap fun slot => slot.channels.keys).toFinset
  sesss := (c.targets.toList.flatMap fun slot => slot.sessions.keys).toFinset

def session (o : Snap) : UInt32 := o.c.sessionId

-- Whether `o` has the client among its targets, by its session or its channel.
def targets (o me : Snap) : Bool := me.session ∈ o.sesss || me.chan ∈ o.chans

-- The position that the client gave last, unless that is too long ago.
def position (o : Snap) (now : Instant) : Option (Float32 × Float32 × Float32) :=
  if o.c.ac.hasPos ∧ now - o.c.ac.lastPosTime ≤ POS_FRESH then
    some (o.c.ac.posX, o.c.ac.posY, o.c.ac.posZ)
  else none

-- The targets that were set in the last `window_secs`.
def window (o : Snap) (ac : AnticheatConfig) (now : Instant) : HashIndex UInt64 Instant :=
  retain (fun t => now - t ≤ max ac.windowSecs.toNat 1 * NANOS) o.c.ac.window

def posHist (o : Snap) (now : Instant) : List Place :=
  o.c.ac.posHist.filter fun p => now - p.time ≤ POS_OSC_WINDOW

end Snap

-- What is computed for one client.
structure Measures where
  reachInstant : UInt32
  reachWindow : UInt32
  mutuality : UInt32
  listens : UInt32
  far : UInt32
  freshTotal : UInt32
  posOsc : UInt32

namespace Measures

variable (limits : Limits) (active : UInt32) (m : Measures)

def reach : UInt32 := max m.reachInstant m.reachWindow

-- 255 stands for a client that reaches nobody.
def lowMutuality : Bool := m.mutuality ≠ 255 && m.mutuality ≤ limits.mutualityMaxPct

def highReach : Bool :=
  limits.minRecipients ≤ m.reach &&
    active.toUInt64 * limits.thresholdPct.toUInt64 ≤ m.reach.toUInt64 * 100

def talkCheat : Bool := m.highReach limits active && m.lowMutuality limits

def spy : Bool := 0 < limits.listenMax && limits.listenMax < m.listens

def posSpoof : Bool := 0 < limits.posOscMax && limits.posOscMax ≤ m.posOsc

-- Too many of the targets in channels are far away. The products wrap.
def outOfRange : Bool :=
  0 < limits.posFarMin && limits.posFarMin ≤ m.far &&
    m.freshTotal * max (min limits.posFarPct 100) 1 ≤ m.far * 100

def posFarCheat : Bool := m.outOfRange limits && m.lowMutuality limits

def suspicious : Bool :=
  m.talkCheat limits active || m.spy limits || m.posSpoof limits || m.posFarCheat limits

def reason : String :=
  " + ".intercalate
    ((if m.talkCheat limits active then ["talk map-wide (mutualité faible)"] else []) ++
      (if m.spy limits then ["listen map-wide (espionnage)"] else []) ++
      (if m.posSpoof limits then ["spoof position (oscillation multi-lieux)"] else []) ++
      (if m.posFarCheat limits then ["cibles hors de portée (position incohérente)"] else []))

def metric : UInt32 := max (max (max m.reach m.listens) m.far) m.posOsc

variable (strikes : UInt32)

-- Whether `flag` is called for a client with that many strikes.
def flags : Bool := m.suspicious limits active && max limits.strikesRequired 1 ≤ strikes + 1

-- The strikes that the client has afterwards.
def count : UInt32 :=
  if m.suspicious limits active then strikes + 1 else if 0 < strikes then strikes - 1 else strikes

end Measures

namespace Sampler

-- The sessions in each channel, its clients first and then its listeners.
def chanMembers (channels : ChannelMap) : HashIndex UInt32 (List UInt32) :=
  (channels.index.values.flatMap fun ch =>
    (ch.clients.keys ++ ch.listeners.keys).map fun session => (ch.id, session)).foldl
      (fun m e => HashIndex.push e.1 e.2 m) ∅

-- How many channels each session listens to.
def listenCount (channels : ChannelMap) : HashIndex UInt32 UInt32 :=
  (channels.index.values.flatMap fun ch => ch.listeners.keys).foldl
    (fun m session => AList.insert session ((m.lookup session).getD 0 + 1) m) ∅

-- `sess_to_idx`, with what the index is of.
def sessToSnap (snaps : List Snap) : HashIndex UInt32 Snap :=
  snaps.foldl (fun m o => AList.insert o.session o m) ∅

variable (channels : ChannelMap) (snaps : List Snap) (me : Snap)

-- Who is reached through a channel.
def reachedChan : Finset UInt32 :=
  (me.chans.biUnion fun ch => (((chanMembers channels).lookup ch).getD []).toFinset).erase
    me.session

def reached : Finset UInt32 := me.sesss.erase me.session ∪ reachedChan channels me

-- Whether the client with a session is there and targets back.
def isMutual (session : UInt32) : Bool :=
  match (sessToSnap snaps).lookup session with
  | some o => o.targets me
  | none => false

def mutuality : UInt32 :=
  if reached channels me = ∅ then 255
  else
    UInt32.ofNat ((reached channels me).filter fun session => isMutual snaps me session).card * 100 /
      max (UInt32.ofNat (reached channels me).card) 1

-- How far away a client is, if that is known.
def distSqTo (now : Instant) (x y z : Float32) (session : UInt32) : Option Float32 := do
  let o ← (sessToSnap snaps).lookup session
  let (qx, qy, qz) ← o.position now
  return AnticheatConfig.distSq x y z qx qy qz

-- How many of those reached through a channel are far away, and of how many the
-- distance is known.
def farTargets (limits : Limits) (now : Instant) : UInt32 × UInt32 :=
  match me.position now with
  | some (x, y, z) =>
      let dist := Float32.ofNat limits.posFarDist.toNat
      (UInt32.ofNat ((reachedChan channels me).filter fun session =>
          (distSqTo snaps now x y z session).any fun d => d > dist * dist).card,
        UInt32.ofNat ((reachedChan channels me).filter fun session =>
          (distSqTo snaps now x y z session).isSome).card)
  | none => (0, 0)

def measure (ac : AnticheatConfig) (limits : Limits) (now : Instant) : Measures where
  reachInstant := UInt32.ofNat (reached channels me).card
  reachWindow := UInt32.ofNat (me.window ac now).entries.length
  mutuality := mutuality channels snaps me
  listens := ((listenCount channels).lookup me.session).getD 0
  far := (farTargets channels snaps me limits now).1
  freshTotal := (farTargets channels snaps me limits now).2
  posOsc := UInt32.ofNat ((me.posHist now).filter Place.isReturn).length

def active : UInt32 := UInt32.ofNat snaps.length

end Sampler

namespace ServerState

def snaps (s : ServerState) : List Snap := s.clients.values.map fun r => .new r (s.get r)

-- What the evaluation of one client does to it.
def judge (s : ServerState) (limits : Limits) (now : Instant) (active : UInt32) (me : Snap)
    (m : Measures) : ServerState :=
  let s := s.modify me.ref fun c =>
    { c with ac := { c.ac with
        window := me.window s.anticheat now
        farTargets := m.far
        posHist := me.posHist now
        posJumps := m.posOsc } }
  let strikes := (s.get me.ref).ac.strikes
  if m.suspicious limits active then
    let s := s.modify me.ref fun c => { c with ac := { c.ac with strikes := strikes + 1 } }
    if max limits.strikesRequired 1 ≤ strikes + 1 then
      let s := s.modify me.ref fun c =>
        { c with ac := { c.ac with score := c.ac.score + m.metric.toUInt64 } }
      s.flag me.ref now (m.reason limits active)
    else s
  else if 0 < strikes then
    s.modify me.ref fun c => { c with ac := { c.ac with strikes := strikes - 1 } }
  else s

-- The new state, and what was measured for each client. Where the source stores a
-- measure in the client that only the panel reads, it is in the second part alone.
def sample (s : ServerState) (limits : Limits) (now : Instant) :
    ServerState × List (Snap × Measures) :=
  if !s.anticheat.enabled then (s, [])
  else if Sampler.active s.snaps = 0 then (s, [])
  else
    let active := Sampler.active s.snaps
    let measured := s.snaps.map fun me =>
      (me, Sampler.measure s.channels s.snaps me s.anticheat limits now)
    (measured.foldl (fun s e => s.judge limits now active e.1 e.2) s, measured)

end ServerState

end Mumble
