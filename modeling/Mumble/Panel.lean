import Mumble.Http.Redaction
import Mumble.Lib.Ring
import Mumble.Sampler.Sanctions
import Mumble.Timestamp

/-!
The panel beside the server: what `flag` tells it and the webhook, and what its requests set.
-/

namespace Mumble

open Mumble.Lib

def LOG_CAPACITY : Nat := 100
def WEBHOOK_COOLDOWN : Nat := 60 * NANOS

def actionName : AnticheatAction → String
  | .Mute => "mute"
  | .Kick => "kick"
  | .Ban => "ban"
  | .Log => "log"

def hmsNow (secs : UInt64) : String :=
  zeroPad 2 (secs / 3600 % 24).toNat ++ ":" ++ zeroPad 2 (secs / 60 % 60).toNat ++ ":" ++
    zeroPad 2 (secs % 60).toNat

-- What `flag` knows of a client when it is beyond its cooldown.
structure Finding where
  name : String
  versionRelease : String
  reason : String
  reach : UInt32
  listens : UInt32
  active : UInt32
  mutuality : UInt32
  score : UInt64
  action : AnticheatAction
  exempt : Bool

namespace Finding

def mutS (f : Finding) : String := if f.mutuality = 255 then "n/a" else toString f.mutuality ++ "%"

def logLine (f : Finding) (secs : UInt64) : String :=
  hmsNow secs ++ " " ++ f.name ++ " — " ++ f.reason ++ " — reach " ++ toString f.reach ++ "/" ++
    toString f.active ++ ", mut " ++ f.mutS ++ ", listens " ++ toString f.listens ++ " (score " ++
    toString f.score ++ ") → " ++ if f.exempt then "exempt" else actionName f.action

end Finding

structure EmbedField where
  name : String
  value : String
  inline : Bool

-- What is posted to the webhook. Its title, its colour and the name it is posted under
-- are always the same.
structure Embed where
  timestamp : String
  fields : List EmbedField

namespace Finding

def embed (f : Finding) (secs : UInt64) (panelUrl : Option String) (serverLabel : String) : Embed :=
  let iso := (iso8601Now secs).getD ""
  let serverField :=
    match panelUrl with
    | some p => "[Ouvrir le panel](" ++ p ++ ")\n`" ++ serverLabel ++ "`"
    | none => "`" ++ serverLabel ++ "`"
  { timestamp := iso
    fields :=
      [⟨"Joueur", f.name, true⟩,
        ⟨"Client", f.versionRelease, true⟩,
        ⟨"Raison", f.reason, false⟩,
        ⟨"Portée / Mutualité", toString f.reach ++ "/" ++ toString f.active ++ " joueurs, mut " ++ f.mutS, true⟩,
        ⟨"Listens / Score", toString f.listens ++ " / " ++ toString f.score, true⟩,
        ⟨"Action", actionName f.action ++ if f.exempt then " (exempt)" else "", true⟩,
        ⟨"Date (UTC)", String.ofList (iso.toList.takeWhile (· ≠ 'T')) ++ " " ++ hmsNow secs, true⟩,
        ⟨"Serveur", serverField, false⟩] }

end Finding

structure Alert where
  client : ClientRef
  time : Instant
  url : String
  embed : Embed

-- The last two are not in the source: every line since the log was cleared, and what was
-- handed to `post_discord`.
structure Panel where
  app : AppState
  -- `None` before the first one: an hour before the connection.
  lastWebhook : ClientRef → Option Instant
  lines : List String
  posted : List Alert

-- The arguments of the program that the panel starts from.
structure Args where
  anticheat : Bool
  anticheatThresholdPct : UInt32
  anticheatMinRecipients : UInt32
  anticheatMutualityMaxPct : UInt32
  anticheatWindowSecs : UInt32
  anticheatStrikes : UInt32
  anticheatListenMax : UInt32
  anticheatAction : String
  anticheatWebhook : Option String
  anticheatPanelUrl : Option String
  serverName : Option String
  listen : String
  panelHideIps : Bool
  removePositionalData : Bool

namespace Args

-- `AnticheatConfig::new`
def config (args : Args) : AnticheatConfig where
  enabled := args.anticheat
  windowSecs := max args.anticheatWindowSecs 1
  posOscDist := 300
  heardSecs := 900
  action := parseAction args.anticheatAction

def limits (args : Args) : Limits where
  thresholdPct := clamp 1 100 args.anticheatThresholdPct
  minRecipients := args.anticheatMinRecipients
  mutualityMaxPct := min args.anticheatMutualityMaxPct 100
  strikesRequired := max args.anticheatStrikes 1
  listenMax := args.anticheatListenMax
  posOscMax := 0
  posFarDist := 500
  posFarMin := 15
  posFarPct := 70

-- The bans and the times at which they were made are read from a file.
def app (args : Args) (bans : BanList) (banTimes : List String)
    (hstamped : banTimes.length = bans.bans.length) : AppState where
  server := .new args.removePositionalData args.config bans
  limits := args.limits
  hideIps := args.panelHideIps
  serverLabel := (args.serverName.filter fun name => trim name.toList ≠ []).getD args.listen
  webhook := args.anticheatWebhook.filter fun url => !url.isEmpty
  panelUrl := args.anticheatPanelUrl.filter fun url => !url.isEmpty
  logs := []
  shown := fun _ => ⟨"", "", "", 0, 0, 0, 0⟩
  banTimes
  stamped := hstamped

def panel (args : Args) (bans : BanList) (banTimes : List String)
    (hstamped : banTimes.length = bans.bans.length) : Panel :=
  ⟨args.app bans banTimes hstamped, fun _ => none, [], []⟩

end Args

namespace ServerState

variable {s : ServerState} {limits : Limits} {now : Instant} {active : UInt32} {e : Snap × Measures}

-- A client that is judged adds one entry to the ban list or none.
theorem bans_judge (s : ServerState) (limits : Limits) (now : Instant) (active : UInt32)
    (e : Snap × Measures) :
    s.bans.bans.length ≤ (s.judge limits now active e.1 e.2).bans.bans.length := by
  have hcharge : (s.charge limits now active e.1 e.2).bans = s.bans := rfl
  rw [judge_eq]
  split
  · rw [((s.charge limits now active e.1 e.2).flag_spec e.1.ref now _).1, hcharge]
    split
    · rw [BanList.add, List.length_append]
      exact Nat.le_add_right ..
    · exact Nat.le_refl _
  · exact Nat.le_refl _

end ServerState

namespace Panel

-- What `flag` is called with, once the client is charged.
def finding (p : Panel) (now : Instant) (active : UInt32) (e : Snap × Measures) : Finding :=
  let c := (p.app.server.charge p.app.limits now active e.1 e.2).get e.1.ref
  { name := c.name
    versionRelease := (p.app.shown e.1.ref).versionRelease
    reason := e.2.reason p.app.limits active
    reach := e.2.reach
    listens := e.2.listens
    active
    mutuality := e.2.mutuality
    score := c.ac.score
    action := p.app.server.anticheat.action
    exempt := c.ac.exempt }

-- `flag` is called for the client and gets beyond its cooldown.
def flags (p : Panel) (now : Instant) (active : UInt32) (e : Snap × Measures) : Bool :=
  let c := p.app.server.get e.1.ref
  e.2.flags p.app.limits active c.ac.strikes && FLAG_COOLDOWN ≤ now - c.ac.lastFlag

-- The webhook is due, and this is where it goes.
def due (p : Panel) (now : Instant) (r : ClientRef) : Option String :=
  match p.app.webhook, p.lastWebhook r with
  | none, _ => none
  | some url, none => some url
  | some url, some last => if WEBHOOK_COOLDOWN ≤ now - last then some url else none

-- The server's own part of it is `ServerState.judge`.
def judgeServer (p : Panel) (now : Instant) (secs : UInt64) (active : UInt32)
    (e : Snap × Measures) : AppState :=
  let server := p.app.server.judge p.app.limits now active e.1 e.2
  { p.app with
    server
    shown := Function.update p.app.shown e.1.ref
      { p.app.shown e.1.ref with
        reachInstant := e.2.reachInstant
        reachWindow := e.2.reachWindow
        mutuality := e.2.mutuality
        listenCount := e.2.listens }
    banTimes := p.app.banTimes ++
      List.replicate (server.bans.bans.length - p.app.banTimes.length) (hmsNow secs)
    stamped := by
      have hmore : p.app.server.bans.bans.length ≤ server.bans.bans.length :=
        p.app.server.bans_judge p.app.limits now active e
      rw [List.length_append, List.length_replicate, p.app.stamped]
      omega }

def judge (p : Panel) (now : Instant) (secs : UInt64) (active : UInt32) (e : Snap × Measures) :
    Panel :=
  let app := p.judgeServer now secs active e
  if p.flags now active e then
    let f := p.finding now active e
    let line := f.logLine secs
    let p' := { p with
      app := { app with logs := Ring.push LOG_CAPACITY p.app.logs line }
      lines := p.lines ++ [line] }
    match p.due now e.1.ref with
    | some url =>
        { p' with
          lastWebhook := Function.update p.lastWebhook e.1.ref (some now)
          posted := p.posted ++ [⟨e.1.ref, now, url, f.embed secs p.app.panelUrl p.app.serverLabel⟩] }
    | none => p'
  else { p with app }

def sample (p : Panel) (now : Instant) (secs : UInt64) : Panel :=
  (p.app.server.sample p.app.limits now).2.foldl
    (fun p' e => p'.judge now secs (Sampler.active p.app.server.snaps) e) p

def get (p : Panel) (now : Instant) (request : Get) : Panel × Response :=
  let (app, response) := p.app.get now request
  ({ p with app }, response)

def post (p : Panel) (time : String) (request : Post) : Panel × StatusCode :=
  let (app, code) := p.app.post time request
  let lines := match request with
    | .AnticheatClear => []
    | _ => p.lines
  ({ p with app, lines }, code)

variable {p p' : Panel} {now : Instant} {secs : UInt64} {active : UInt32} {e : Snap × Measures}

theorem judge_app : (p.judge now secs active e).app =
    { p.judgeServer now secs active e with
      logs := if p.flags now active e then
          Ring.push LOG_CAPACITY p.app.logs ((p.finding now active e).logLine secs)
        else p.app.logs } := by
  unfold judge
  dsimp only
  split_ifs
  · split <;> rfl
  · rfl

theorem judge_lines : (p.judge now secs active e).lines =
    if p.flags now active e then p.lines ++ [(p.finding now active e).logLine secs]
    else p.lines := by
  unfold judge
  dsimp only
  split_ifs
  · split <;> rfl
  · rfl

theorem judge_server : (p.judge now secs active e).app.server =
    p.app.server.judge p.app.limits now active e.1 e.2 := by
  rw [judge_app]
  rfl

theorem judge_limits : (p.judge now secs active e).app.limits = p.app.limits := by
  rw [judge_app]
  rfl

-- The panel's evaluation is the server's.
theorem sample_server (p : Panel) (now : Instant) (secs : UInt64) :
    (p.sample now secs).app.server = (p.app.server.sample p.app.limits now).1 ∧
      (p.sample now secs).app.limits = p.app.limits := by
  have hall (measured : List (Snap × Measures)) (p : Panel) (active : UInt32) :
      (measured.foldl (fun p' e => p'.judge now secs active e) p).app.server =
          measured.foldl (fun s e => s.judge p.app.limits now active e.1 e.2) p.app.server ∧
        (measured.foldl (fun p' e => p'.judge now secs active e) p).app.limits = p.app.limits := by
    induction measured generalizing p with
    | nil => exact ⟨rfl, rfl⟩
    | cons e measured ih =>
        obtain ⟨hserver, hlimits⟩ := ih (p.judge now secs active e)
        rw [judge_limits, judge_server] at hserver
        exact ⟨hserver, hlimits.trans judge_limits⟩
  rw [ServerState.sample_eq]
  exact hall _ p _

end Panel

-- The bounds of the settings.
structure AppState.InRange (a : AppState) : Prop where
  thresholdPct : 1 ≤ a.limits.thresholdPct ∧ a.limits.thresholdPct ≤ 100
  mutualityMaxPct : a.limits.mutualityMaxPct ≤ 100
  strikesRequired : 1 ≤ a.limits.strikesRequired
  posFarDist : 100 ≤ a.limits.posFarDist
  posFarPct : 1 ≤ a.limits.posFarPct ∧ a.limits.posFarPct ≤ 100
  windowSecs : 1 ≤ a.server.anticheat.windowSecs
  posOscDist : a.server.anticheat.posOscDist = 0 ∨ 50 ≤ a.server.anticheat.posOscDist
  heardSecs : 10 ≤ a.server.anticheat.heardSecs ∧ a.server.anticheat.heardSecs ≤ 7200
  webhook : a.webhook ≠ some ""
  panelUrl : a.panelUrl ≠ some ""

theorem le_max_u32 (a b : UInt32) : a ≤ max a b ∧ b ≤ max a b := by
  change a ≤ (if a ≤ b then b else a) ∧ b ≤ if a ≤ b then b else a
  split_ifs with h
  · exact ⟨h, UInt32.le_refl b⟩
  · exact ⟨UInt32.le_refl a, UInt32.le_of_lt (UInt32.not_le.mp h)⟩

theorem min_u32_le (a b : UInt32) : min a b ≤ b := Std.min_le_right

theorem clamp_range {lo hi : UInt32} (h : lo ≤ hi) (v : UInt32) :
    lo ≤ clamp lo hi v ∧ clamp lo hi v ≤ hi := by
  refine ⟨(le_max_u32 ..).1, ?_⟩
  change (if lo ≤ min v hi then min v hi else lo) ≤ hi
  split_ifs
  · exact min_u32_le v hi
  · exact h

-- A setting that is updated gets a value within its bounds, and otherwise keeps the old one.
theorem getD_map_of {α : Type} {P : α → Prop} {f : α → α} (hf : ∀ v, P (f v)) (update : Option α)
    {old : α} (hold : P old) : P ((update.map f).getD old) := by
  cases update with
  | none => exact hold
  | some v => exact hf v

theorem ConfigUpdate.text_ne_empty (update : Option String) {old : Option String}
    (hold : old ≠ some "") : ConfigUpdate.text update old ≠ some "" := by
  unfold ConfigUpdate.text
  split
  · exact hold
  · split_ifs with hblank
    · exact fun hnone => (nomatch hnone)
    · intro hempty
      cases hempty
      exact hblank rfl

theorem filter_ne_empty (url : Option String) : url.filter (fun url => !url.isEmpty) ≠ some "" := by
  intro h
  have hkept := (Option.filter_eq_some_iff.mp h).2
  cases hkept

namespace AppState.InRange

variable {a a' : AppState}

theorem congr (h : a.InRange) (hlimits : a'.limits = a.limits)
    (hanticheat : a'.server.anticheat = a.server.anticheat) (hwebhook : a'.webhook = a.webhook)
    (hpanelUrl : a'.panelUrl = a.panelUrl) : a'.InRange := by
  obtain ⟨h₁, h₂, h₃, h₄, h₅, h₆, h₇, h₈, h₉, h₁₀⟩ := h
  rw [← hlimits] at h₁ h₂ h₃ h₄ h₅
  rw [← hanticheat] at h₆ h₇ h₈
  rw [← hwebhook] at h₉
  rw [← hpanelUrl] at h₁₀
  exact ⟨h₁, h₂, h₃, h₄, h₅, h₆, h₇, h₈, h₉, h₁₀⟩

theorem update (h : a.InRange) (update : ConfigUpdate) : (a.postAnticheatConfig update).1.InRange where
  thresholdPct := getD_map_of (P := fun v => 1 ≤ v ∧ v ≤ 100) (clamp_range (by decide)) _ h.thresholdPct
  mutualityMaxPct := getD_map_of (P := fun v => v ≤ 100) (fun _ => min_u32_le ..) _ h.mutualityMaxPct
  strikesRequired := getD_map_of (P := fun v => 1 ≤ v) (fun _ => (le_max_u32 ..).2) _ h.strikesRequired
  posFarDist := getD_map_of (P := fun v => 100 ≤ v) (fun _ => (le_max_u32 ..).2) _ h.posFarDist
  posFarPct := getD_map_of (P := fun v => 1 ≤ v ∧ v ≤ 100) (clamp_range (by decide)) _ h.posFarPct
  windowSecs := getD_map_of (P := fun v => 1 ≤ v) (fun _ => (le_max_u32 ..).2) _ h.windowSecs
  posOscDist := by
    refine getD_map_of (P := fun v => v = 0 ∨ 50 ≤ v) (fun v => ?_) _ h.posOscDist
    split_ifs
    · exact .inl rfl
    · exact .inr (le_max_u32 ..).2
  heardSecs := getD_map_of (P := fun v => 10 ≤ v ∧ v ≤ 7200) (clamp_range (by decide)) _ h.heardSecs
  webhook := ConfigUpdate.text_ne_empty _ h.webhook
  panelUrl := ConfigUpdate.text_ne_empty _ h.panelUrl

end AppState.InRange

theorem Args.inRange_app (args : Args) {bans : BanList} {banTimes : List String}
    {hstamped : banTimes.length = bans.bans.length} : (args.app bans banTimes hstamped).InRange where
  thresholdPct := clamp_range (by decide) _
  mutualityMaxPct := min_u32_le ..
  strikesRequired := (le_max_u32 ..).2
  posFarDist := (by decide : (100 : UInt32) ≤ 500)
  posFarPct := (by decide : (1 : UInt32) ≤ 70 ∧ (70 : UInt32) ≤ 100)
  windowSecs := (le_max_u32 ..).2
  posOscDist := .inr (by decide : (50 : UInt32) ≤ 300)
  heardSecs := (by decide : (10 : UInt32) ≤ 900 ∧ (900 : UInt32) ≤ 7200)
  webhook := filter_ne_empty _
  panelUrl := filter_ne_empty _

-- An event that does not come from the panel or the sampler.
def Event.fromNetwork : Event → Bool
  | .Admin _ | .Flag _ _ => false
  | _ => true

inductive Input where
  | Network (l : Label)
  | Get (now : Instant) (request : Get)
  | Post (time : String) (request : Post)
  | Sample (now : Instant) (secs : UInt64)

namespace Panel

-- What a client says of itself is there once it has connected.
def Step (p : Panel) (i : Input) (p' : Panel) : Prop :=
  match i with
  | .Network l => l.event.fromNetwork = true ∧ ∃ server shown hstamped,
      p.app.server.Transition l server ∧ (∀ r < p.app.server.next, shown r = p.app.shown r) ∧
      p' = { p with app := { p.app with server, shown, stamped := hstamped } }
  | .Get now request => p' = (p.get now request).1
  | .Post time request => p' = (p.post time request).1
  | .Sample now secs => p' = p.sample now secs

variable {p p' : Panel} {i : Input} {inputs : List Input}

theorem get_kept (a : AppState) (now : Instant) (request : Mumble.Get) :
    (a.get now request).1.logs = a.logs ∧ (a.get now request).1.limits = a.limits ∧
      (a.get now request).1.server.anticheat = a.server.anticheat ∧
      (a.get now request).1.webhook = a.webhook ∧ (a.get now request).1.panelUrl = a.panelUrl := by
  cases request with
  | Heard sessionId =>
      unfold AppState.get AppState.getHeard
      dsimp only
      split <;> exact ⟨rfl, rfl, rfl, rfl, rfl⟩
  | _ => exact ⟨rfl, rfl, rfl, rfl, rfl⟩

theorem anticheat_clear (s : ServerState) :
    (s.handleAdmin .PostAnticheatClear).anticheat = s.anticheat := by
  unfold ServerState.handleAdmin
  dsimp only
  generalize s.clients.values = refs
  induction refs generalizing s with
  | nil => rfl
  | cons r refs ih => exact ih _

-- A request other than those for the settings changes none of them, and one other than
-- that for clearing leaves the log.
theorem post_kept (a : AppState) (time : String) (request : Mumble.Post) :
    (∃ update, request = .AnticheatConfig update) ∨ (a.post time request).1.limits = a.limits ∧
      (a.post time request).1.server.anticheat = a.server.anticheat ∧
      (a.post time request).1.webhook = a.webhook ∧ (a.post time request).1.panelUrl = a.panelUrl ∧
      (request = .AnticheatClear ∨ (a.post time request).1.logs = a.logs) := by
  cases request with
  | AnticheatConfig update => exact .inl ⟨update, rfl⟩
  | AnticheatClear => exact .inr ⟨rfl, anticheat_clear _, rfl, rfl, .inl rfl⟩
  | AnticheatUnban id => exact .inr ⟨rfl, rfl, rfl, rfl, .inr rfl⟩
  | Mute user mute =>
      unfold AppState.post AppState.postMute
      dsimp only
      split <;> exact .inr ⟨rfl, rfl, rfl, rfl, .inr rfl⟩
  | Deaf user deaf =>
      unfold AppState.post AppState.postDeaf
      dsimp only
      split <;> exact .inr ⟨rfl, rfl, rfl, rfl, .inr rfl⟩
  | HeardClear sessionId =>
      unfold AppState.post AppState.postHeardClear
      dsimp only
      split <;> exact .inr ⟨rfl, rfl, rfl, rfl, .inr rfl⟩
  | AnticheatUser user action =>
      unfold AppState.post AppState.postAnticheatUser
      dsimp only
      split
      · exact .inr ⟨rfl, rfl, rfl, rfl, .inr rfl⟩
      · rename_i r _
        split
        · rename_i action _
          have hsame : (a.server.applyAction r action).anticheat = a.server.anticheat := by
            cases action <;> rfl
          exact .inr ⟨rfl, hsame, rfl, rfl, .inr rfl⟩
        · exact .inr ⟨rfl, rfl, rfl, rfl, .inr rfl⟩

-- What every judgement keeps, an evaluation keeps.
theorem sample_keeps {I : Panel → Prop} {now : Instant} {secs : UInt64}
    (hjudge : ∀ {p : Panel} active e, I p → I (p.judge now secs active e)) (h : I p) :
    I (p.sample now secs) := by
  unfold Panel.sample
  generalize (p.app.server.sample p.app.limits now).2 = measured
  generalize Sampler.active p.app.server.snaps = active
  induction measured generalizing p with
  | nil => exact h
  | cons e measured ih => exact ih (hjudge active e h)

-- The log has the newest hundred of all lines.
def Logged (p : Panel) : Prop := p.app.logs = p.lines.rtake LOG_CAPACITY

theorem Logged.judge {now : Instant} {secs : UInt64} (active : UInt32) (e : Snap × Measures)
    (h : p.Logged) : (p.judge now secs active e).Logged := by
  unfold Logged at h ⊢
  rw [judge_app, judge_lines]
  split_ifs
  · rw [← Ring.push_rtake (by decide), ← h]
  · exact h

theorem Logged.step (h : p.Logged) (hstep : p.Step i p') : p'.Logged := by
  cases i with
  | Network l =>
      obtain ⟨-, server, shown, hstamped, -, -, rfl⟩ := hstep
      exact h
  | Get now request =>
      obtain rfl : p' = (p.get now request).1 := hstep
      exact (get_kept p.app now request).1.trans h
  | Post time request =>
      obtain rfl : p' = (p.post time request).1 := hstep
      obtain ⟨update, rfl⟩ | ⟨-, -, -, -, rfl | hlogs⟩ := post_kept p.app time request
      · exact h
      · rfl
      · cases request with
        | AnticheatClear => rfl
        | _ => exact hlogs.trans h
  | Sample now secs =>
      obtain rfl : p' = p.sample now secs := hstep
      exact sample_keeps Logged.judge h

-- The posts about one client are a minute apart, and the last of them is remembered.
structure Spaced (posted : List Alert) (lastWebhook : ClientRef → Option Instant) : Prop where
  apart : ∀ q, (posted.filter (·.client = q)).Pairwise
    fun x y => x.time + WEBHOOK_COOLDOWN ≤ y.time
  last : ∀ q, ((posted.filter (·.client = q)).getLast?).map Alert.time = lastWebhook q

namespace Spaced

variable {posted : List Alert} {lastWebhook : ClientRef → Option Instant}

-- The last one bounds the others.
theorem le_last (h : Spaced posted lastWebhook) {x : Alert} (hx : x ∈ posted) :
    ∃ last, lastWebhook x.client = some last ∧ x.time ≤ last := by
  have hmem : x ∈ posted.filter (·.client = x.client) :=
    List.mem_filter.mpr ⟨hx, decide_eq_true rfl⟩
  have hown := h.last x.client
  have hapart := h.apart x.client
  generalize posted.filter (·.client = x.client) = own at hmem hown hapart
  rcases List.eq_nil_or_concat own with rfl | ⟨before, final, rfl⟩
  · cases hmem
  · rw [List.concat_eq_append] at hmem hown hapart
    rw [List.getLast?_concat] at hown
    refine ⟨final.time, hown.symm, ?_⟩
    rcases List.mem_append.mp hmem with hbefore | hsame
    · have hgap := (List.pairwise_append.mp hapart).2.2 x hbefore final (List.mem_singleton_self _)
      exact Nat.le_trans (Nat.le_add_right ..) hgap
    · rw [List.mem_singleton.mp hsame]

theorem post (h : Spaced posted lastWebhook) (x : Alert)
    (hcool : ∀ last, lastWebhook x.client = some last → last + WEBHOOK_COOLDOWN ≤ x.time) :
    Spaced (posted ++ [x]) (Function.update lastWebhook x.client (some x.time)) := by
  have hself : [x].filter (·.client = x.client) = [x] := List.filter_cons_of_pos (decide_eq_true rfl)
  have hothers {q : ClientRef} (hq : q ≠ x.client) : [x].filter (·.client = q) = [] :=
    List.filter_cons_of_neg fun hsame => hq (of_decide_eq_true hsame).symm
  refine ⟨fun q => ?_, fun q => ?_⟩
  · rw [List.filter_append]
    by_cases hq : q = x.client
    · subst hq
      rw [hself]
      refine List.pairwise_append.mpr ⟨h.apart _, List.pairwise_singleton .., ?_⟩
      intro y hy z hz
      obtain ⟨hposted, hclient⟩ := List.mem_filter.mp hy
      obtain ⟨last, hlast, hle⟩ := h.le_last hposted
      rw [of_decide_eq_true hclient] at hlast
      rw [List.mem_singleton.mp hz]
      exact Nat.le_trans (Nat.add_le_add_right hle _) (hcool last hlast)
    · rw [hothers hq, List.append_nil]
      exact h.apart q
  · rw [List.filter_append]
    by_cases hq : q = x.client
    · subst hq
      rw [hself, List.getLast?_concat, Function.update_self]
      rfl
    · rw [hothers hq, List.append_nil, Function.update_of_ne hq, h.last q]

end Spaced

theorem due_some {now : Instant} {r : ClientRef} {url : String} (h : p.due now r = some url)
    (last : Instant) (hlast : p.lastWebhook r = some last) : last + WEBHOOK_COOLDOWN ≤ now := by
  unfold due at h
  rw [hlast] at h
  split at h
  · cases h
  · rename_i hnone
    cases hnone
  · rename_i url' last' _ hsome
    cases hsome
    split_ifs at h with hcool
    have hpos : 0 < WEBHOOK_COOLDOWN := by decide
    have hlater : last ≤ now := Nat.le_of_lt (Nat.lt_of_sub_pos (Nat.lt_of_lt_of_le hpos hcool))
    exact Nat.add_le_of_le_sub' hlater hcool

theorem spaced_judge {now : Instant} {secs : UInt64} (active : UInt32) (e : Snap × Measures)
    (h : Spaced p.posted p.lastWebhook) :
    Spaced (p.judge now secs active e).posted (p.judge now secs active e).lastWebhook := by
  unfold Panel.judge
  dsimp only
  split_ifs
  · split
    · rename_i url hdue
      exact h.post ⟨e.1.ref, now, url, _⟩ (due_some hdue)
    · exact h
  · exact h

theorem spaced_step (h : Spaced p.posted p.lastWebhook) (hstep : p.Step i p') :
    Spaced p'.posted p'.lastWebhook := by
  cases i with
  | Network l =>
      obtain ⟨-, server, shown, hstamped, -, -, rfl⟩ := hstep
      exact h
  | Get now request =>
      obtain rfl : p' = (p.get now request).1 := hstep
      exact h
  | Post time request =>
      obtain rfl : p' = (p.post time request).1 := hstep
      exact h
  | Sample now secs =>
      obtain rfl : p' = p.sample now secs := hstep
      exact sample_keeps (I := fun p => Spaced p.posted p.lastWebhook) spaced_judge h

-- The server behind the panel stays one of those that its runs lead to.
theorem sound_step (h : p.app.server.registry.Sound) (hstep : p.Step i p') :
    p'.app.server.registry.Sound := by
  cases i with
  | Network l =>
      obtain ⟨-, server, shown, hstamped, htransition, -, rfl⟩ := hstep
      exact ServerState.sound_transition h htransition
  | Get now request =>
      obtain rfl : p' = (p.get now request).1 := hstep
      have hsame : (p.app.get now request).1.server.registry = p.app.server.registry := by
        cases request with
        | Heard sessionId =>
            unfold AppState.get AppState.getHeard
            dsimp only
            split
            · rfl
            · dsimp only
              exact ServerState.registry_modify_same fun _ => rfl
        | _ => rfl
      exact hsame ▸ h
  | Post time request =>
      obtain rfl : p' = (p.post time request).1 := hstep
      rcases (AppState.post_spec (a := p.app) time request).2 with hsame | ⟨admin, hadmin⟩
      · exact hsame ▸ h
      · have hstep : p.app.server.Transition ⟨0, .Admin admin, .ok ()⟩ (p.app.server.handleAdmin admin) :=
          ⟨rfl, fun h => nomatch h⟩
        exact hadmin ▸ ServerState.sound_transition h hstep
  | Sample now secs =>
      obtain rfl : p' = p.sample now secs := hstep
      rw [(sample_server p now secs).1]
      exact ServerState.follows_sample.invariant (fun _ hg hop => hg.step hop) h

theorem inRange_step (hsound : p.app.server.registry.Sound) (h : p.app.InRange)
    (hstep : p.Step i p') : p'.app.InRange := by
  cases i with
  | Network l =>
      obtain ⟨hnetwork, server, shown, hstamped, htransition, -, rfl⟩ := hstep
      have hsame : server.anticheat = p.app.server.anticheat := by
        refine ServerState.anticheat_step hsound.indexed htransition.step ?_
        rintro config hconfig
        rw [hconfig] at hnetwork
        cases hnetwork
      exact h.congr rfl hsame rfl rfl
  | Get now request =>
      obtain rfl : p' = (p.get now request).1 := hstep
      obtain ⟨-, hlimits, hanticheat, hwebhook, hpanelUrl⟩ := get_kept p.app now request
      exact h.congr hlimits hanticheat hwebhook hpanelUrl
  | Post time request =>
      obtain rfl : p' = (p.post time request).1 := hstep
      obtain ⟨update, rfl⟩ | ⟨hlimits, hanticheat, hwebhook, hpanelUrl, -⟩ :=
        post_kept p.app time request
      · exact h.update update
      · exact h.congr hlimits hanticheat hwebhook hpanelUrl
  | Sample now secs =>
      obtain rfl : p' = p.sample now secs := hstep
      refine sample_keeps (I := fun p => p.app.InRange) (fun {p} active e hp => ?_) h
      refine hp.congr judge_limits ?_ ?_ ?_
      · rw [judge_server]
        exact ServerState.anticheat_judge
      · rw [judge_app]
        rfl
      · rw [judge_app]
        rfl

-- Events of the network that are computed one by one. None of them touches the ban list.
def quiet (s : ServerState) : List (Instant × Event) → Bool
  | [] => true
  | e :: events =>
      e.2.fromNetwork && (s.outcome e.1 e.2).isSome &&
        decide ((s.after e.1 e.2).bans.bans.length = s.bans.bans.length) &&
        quiet (s.after e.1 e.2) events

def withServer (p : Panel) (server : ServerState)
    (hstamped : p.app.banTimes.length = server.bans.bans.length) : Panel :=
  { p with app := { p.app with server, stamped := hstamped } }

theorem run_quiet {events : List (Instant × Event)} (h : quiet p.app.server events = true)
    (hstamped : p.app.banTimes.length = (p.app.server.afterAll events).bans.bans.length) :
    ∃ inputs, Run Step p inputs (p.withServer (p.app.server.afterAll events) hstamped) := by
  induction events generalizing p with
  | nil => exact ⟨[], .Done p⟩
  | cons e events ih =>
      simp only [quiet, Bool.and_eq_true, decide_eq_true_eq, Option.isSome_iff_exists] at h
      obtain ⟨⟨⟨hnetwork, result, houtcome⟩, hbans⟩, hrest⟩ := h
      have hnext : p.app.banTimes.length = (p.app.server.after e.1 e.2).bans.bans.length :=
        p.app.stamped.trans hbans.symm
      obtain ⟨inputs, hrun⟩ := ih (p := p.withServer (p.app.server.after e.1 e.2) hnext) hrest hstamped
      have hstep : p.Step (.Network ⟨e.1, e.2, result⟩)
          (p.withServer (p.app.server.after e.1 e.2) hnext) :=
        ⟨hnetwork, _, p.app.shown, hnext, ServerState.transition_after houtcome, fun _ _ => rfl, rfl⟩
      exact ⟨_, .Step hstep hrun⟩

-- The crowd of five, of which one talks to the others.
def sampleArgs : Args where
  anticheat := true
  anticheatThresholdPct := 50
  anticheatMinRecipients := 3
  anticheatMutualityMaxPct := 30
  anticheatWindowSecs := 10
  anticheatStrikes := 0
  anticheatListenMax := 0
  anticheatAction := "mute"
  anticheatWebhook := some "hook"
  anticheatPanelUrl := none
  serverName := none
  listen := "0.0.0.0:64738"
  panelHideIps := true
  removePositionalData := false

def samplePanel : Panel := sampleArgs.panel ⟨[], 1⟩ [] rfl

def sampleCrowdEvents : List (Instant × Event) :=
  ServerState.sampleClients ++
    [(0, .Connect "ann" "10.0.0.3" (Vector.replicate KEY_SIZE 3) .Open),
      (0, .Connect "cid" "10.0.0.4" (Vector.replicate KEY_SIZE 4) .Open),
      (0, .Connect "dan" "10.0.0.5" (Vector.replicate KEY_SIZE 5) .Open),
      (0, .Tcp 1 (.ChannelState ⟨none, some 0, some "den", none, some true, none⟩)),
      (0, .Tcp 0 (.VoiceTarget ⟨some 1, [⟨[], some 1⟩]⟩)),
      (0, .Tcp 2 (.UserState { ServerState.sampleUserState 3 with listeningChannelAdd := [1] })),
      (0, .Tcp 3 (.UserState { ServerState.sampleUserState 4 with listeningChannelAdd := [1] })),
      (0, .Tcp 4 (.UserState { ServerState.sampleUserState 5 with listeningChannelAdd := [1] }))]

theorem stamped_samplePanel : samplePanel.app.banTimes.length =
    (samplePanel.app.server.afterAll sampleCrowdEvents).bans.bans.length := by decide +kernel

-- Judged once, three seconds after they came.
def sampleJudged : Panel :=
  (samplePanel.withServer (samplePanel.app.server.afterAll sampleCrowdEvents)
    stamped_samplePanel).sample FLAG_COOLDOWN 0

theorem run_sampleJudged : ∃ inputs, Run Step samplePanel inputs sampleJudged := by
  obtain ⟨inputs, hrun⟩ := run_quiet (p := samplePanel) (by decide +kernel) stamped_samplePanel
  have hstep : (samplePanel.withServer (samplePanel.app.server.afterAll sampleCrowdEvents)
      stamped_samplePanel).Step (.Sample FLAG_COOLDOWN 0) sampleJudged := rfl
  exact ⟨_, hrun.append (.single hstep)⟩

-- They go on like that: judged again after ten seconds, and after the log was cleared twice
-- more, the first time a minute after the first post.
def sampleWatched : Panel :=
  (((sampleJudged.sample (10 * NANOS) 10).post "" .AnticheatClear).1.sample
    (FLAG_COOLDOWN + WEBHOOK_COOLDOWN) 63).sample (70 * NANOS) 70

theorem run_sampleWatched : ∃ inputs, Run Step samplePanel inputs sampleWatched := by
  obtain ⟨inputs, hrun⟩ := run_sampleJudged
  have hsecond : sampleJudged.Step (.Sample (10 * NANOS) 10) _ := rfl
  have hclear : (sampleJudged.sample (10 * NANOS) 10).Step (.Post "" .AnticheatClear) _ := rfl
  have hthird : ((sampleJudged.sample (10 * NANOS) 10).post "" .AnticheatClear).1.Step
      (.Sample (FLAG_COOLDOWN + WEBHOOK_COOLDOWN) 63) _ := rfl
  have hfourth : (((sampleJudged.sample (10 * NANOS) 10).post "" .AnticheatClear).1.sample
      (FLAG_COOLDOWN + WEBHOOK_COOLDOWN) 63).Step (.Sample (70 * NANOS) 70) sampleWatched := rfl
  exact ⟨_, hrun.append (.Step hsecond (.Step hclear (.Step hthird (.single hfourth))))⟩

section Start

variable {args : Args} {bans : BanList} {banTimes : List String}
  {hstamped : banTimes.length = bans.bans.length}

-- The panel shows the newest hundred lines since the log was cleared, the newest first.
theorem panel_logs (hrun : Run Step (args.panel bans banTimes hstamped) inputs p) :
    p.app.getAnticheat.logs = p.lines.reverse.take LOG_CAPACITY := by
  have hlogged : p.Logged := hrun.invariant (P := fun _ => True) (I := Logged)
    (fun _ hs hstep => hs.step hstep) (fun _ _ => trivial) rfl
  have hshown : p.app.getAnticheat.logs = p.app.logs.reverse := rfl
  rw [hshown, hlogged, List.rtake_eq_reverse_take_reverse, List.reverse_reverse]

-- Two lines have come since the log was cleared.
theorem panel_logs_sample :
    sampleWatched.app.getAnticheat.logs =
      ["00:01:10 eve — talk map-wide (mutualité faible) — " ++
          "reach 4/5, mut 0%, listens 0 (score 8) → mute",
        "00:01:03 eve — talk map-wide (mutualité faible) — " ++
          "reach 4/5, mut 0%, listens 0 (score 4) → mute"] ∧
    sampleWatched.app.getAnticheat.logs = sampleWatched.lines.reverse.take LOG_CAPACITY := by
  obtain ⟨inputs, hrun⟩ := run_sampleWatched
  exact ⟨by decide +kernel, panel_logs hrun⟩

-- Whatever happens, the webhook is called for one client at most once a minute.
theorem webhooks_apart (hrun : Run Step (args.panel bans banTimes hstamped) inputs p)
    (q : ClientRef) : (p.posted.filter (·.client = q)).Pairwise
      fun x y => x.time + WEBHOOK_COOLDOWN ≤ y.time := by
  have hspaced : Spaced p.posted p.lastWebhook := hrun.invariant (P := fun _ => True)
    (I := fun p => Spaced p.posted p.lastWebhook) (fun _ hs hstep => spaced_step hs hstep)
    (fun _ _ => trivial) ⟨fun _ => List.Pairwise.nil, fun _ => rfl⟩
  exact hspaced.apart q

-- The client is flagged four times, and posted about twice.
theorem webhooks_apart_sample :
    sampleWatched.posted.map (fun x => (x.client, x.time, x.url)) =
      [(0, FLAG_COOLDOWN, "hook"), (0, FLAG_COOLDOWN + WEBHOOK_COOLDOWN, "hook")] ∧
    (sampleWatched.posted.filter (·.client = 0)).Pairwise
      fun x y => x.time + WEBHOOK_COOLDOWN ≤ y.time := by
  obtain ⟨inputs, hrun⟩ := run_sampleWatched
  exact ⟨by decide +kernel, webhooks_apart hrun 0⟩

-- The settings stay within the bounds that the code relies on, from the arguments of the
-- program on and through every request.
theorem settings_in_range (hrun : Run Step (args.panel bans banTimes hstamped) inputs p) :
    p.app.InRange := by
  have hboth := hrun.invariant (P := fun _ => True)
    (I := fun p => p.app.server.registry.Sound ∧ p.app.InRange)
    (fun _ hs hstep => ⟨sound_step hs.1 hstep, inRange_step hs.1 hs.2 hstep⟩) (fun _ _ => trivial)
    ⟨ServerState.sound_new .., args.inRange_app⟩
  exact hboth.2

-- The number of strikes is given as zero and becomes one.
theorem settings_in_range_sample :
    sampleArgs.anticheatStrikes = 0 ∧ sampleJudged.app.limits.strikesRequired = 1 ∧
      sampleJudged.app.InRange := by
  obtain ⟨inputs, hrun⟩ := run_sampleJudged
  exact ⟨rfl, by decide +kernel, settings_in_range hrun⟩

end Start

end Panel

end Mumble
