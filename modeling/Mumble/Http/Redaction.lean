import Mumble.Http
import Mumble.Reachable

/-!
No address gets out through the HTTP interface while `hide_ips` is set: the responses can be
computed from a state that has none.
-/

namespace Mumble

open Mumble.Lib

-- The state without any address of a client.

def HeardEntry.redact (e : HeardEntry) : HeardEntry := { e with ip := "" }

def BanEntry.redact (b : BanEntry) : BanEntry := { b with ip := b.ip.map fun _ => "" }

def AcStats.redact (c : AcStats) : AcStats :=
  { c with heard := HashIndex.mapValues HeardEntry.redact c.heard }

def Client.redact (c : Client) : Client :=
  { c with peerIp := "", udpSocketAddr := none, ac := c.ac.redact }

def ServerState.redact (s : ServerState) : ServerState :=
  { s with
    heap := fun r => (s.get r).redact
    clientsBySocket := ∅
    bans := { s.bans with bans := s.bans.bans.map BanEntry.redact } }

def AppState.redact (a : AppState) : AppState :=
  { a with
    server := a.server.redact
    stamped := a.stamped.trans (List.length_map ..).symm }

namespace AppState

variable {a a' : AppState} {now : Instant}

theorem getAnticheat_redact (h : a.hideIps = true) : a.redact.getAnticheat = a.getAnticheat := by
  have hclients : a.redact.anticheatClient = a.anticheatClient := by
    funext r
    unfold anticheatClient
    rw [h, show a.redact.hideIps = true from h]
    rfl
  have hban (b : BanEntry) (time : String) : a.redact.stampedBan b.redact time = a.stampedBan b time := by
    unfold stampedBan
    rw [h, show a.redact.hideIps = true from h, if_pos rfl, if_pos rfl, BanEntry.redact,
      Option.map_map]
    rfl
  have hbans : (a.server.bans.bans.map BanEntry.redact).zipWith a.redact.stampedBan a.banTimes =
      a.server.bans.bans.zipWith a.stampedBan a.banTimes := by
    rw [List.zipWith_map_left]
    exact congrArg (fun f => List.zipWith f _ _) (funext fun b => funext (hban b))
  unfold getAnticheat
  rw [hclients]
  exact congrArg (fun bans => { a.getAnticheat with bans }) hbans

theorem heardItem_redact (h : a.hideIps = true) (e : HeardEntry) :
    a.redact.heardItem now e.redact = a.heardItem now e := by
  unfold heardItem
  rw [h, show a.redact.hideIps = true from h]
  rfl

-- Which entries are too old does not depend on the addresses.
theorem purgeHeard_redact (c : AcStats) (config : AnticheatConfig) :
    c.redact.purgeHeard config now = (c.purgeHeard config now).redact := by
  have hretain : retain (fun e => now - e.last ≤ max config.heardSecs.toNat 10 * NANOS)
      (HashIndex.mapValues HeardEntry.redact c.heard) = HashIndex.mapValues HeardEntry.redact
        (retain (fun e => now - e.last ≤ max config.heardSecs.toNat 10 * NANOS) c.heard) := by
    refine AList.ext ?_
    exact List.filter_map ..
  exact congrArg (fun heard => { c with heard }) hretain

theorem getHeard_redact (h : a.hideIps = true) (sessionId : UInt32) :
    (a.redact.getHeard now sessionId).2 = (a.getHeard now sessionId).2 := by
  unfold getHeard
  rw [show a.redact.server.clients = a.server.clients from rfl]
  cases a.server.clients.lookup sessionId with
  | none => rfl
  | some r =>
      dsimp only
      rw [ServerState.get_modify_self, ServerState.get_modify_self]
      have hpurged : (a.redact.server.get r).ac.purgeHeard a.redact.server.anticheat now =
          ((a.server.get r).ac.purgeHeard a.server.anticheat now).redact := purgeHeard_redact _ _
      have hitems :
          ((a.redact.server.get r).ac.purgeHeard a.redact.server.anticheat now).heard.values.map
              (a.redact.heardItem now) =
            ((a.server.get r).ac.purgeHeard a.server.anticheat now).heard.values.map
              (a.heardItem now) := by
        rw [hpurged, AcStats.redact, HashIndex.values_mapValues, List.map_map]
        exact List.map_congr_left fun e _ => heardItem_redact h e
      exact congrArg (fun items => Response.Heard ⟨sessionId, (a.server.get r).name,
        a.server.anticheat.heardSecs, List.mergeSort items fun x y => x.agoSecs ≤ y.agoSecs⟩) hitems

theorem get_redact (h : a.hideIps = true) (request : Get) :
    (a.redact.get now request).2 = (a.get now request).2 := by
  cases request with
  | Anticheat => exact congrArg Response.Anticheat (getAnticheat_redact h)
  | Heard sessionId => exact getHeard_redact h sessionId
  | Status => rfl
  | Mute user => rfl
  | Deaf user => rfl

-- A request changes the server as one of the events of its runs does, or not at all, and
-- none changes `hide_ips`.
theorem post_spec (time : String) (request : Post) :
    (a.post time request).1.hideIps = a.hideIps ∧
      ((a.post time request).1.server = a.server ∨
        ∃ admin, (a.post time request).1.server = a.server.handleAdmin admin) := by
  have hnamed {user : String} {r : ClientRef} (hr : a.server.getClientByName user = some r)
      (f : ServerState → ClientRef → ServerState) : f a.server r = a.server.onNamed user f := by
    rw [ServerState.onNamed, hr]
  cases request with
  | Mute user mute =>
      unfold post postMute
      dsimp only
      split
      · rename_i r hr
        exact ⟨rfl, .inr ⟨.PostMute user mute, hnamed hr fun s r => s.modify r (·.setMute mute)⟩⟩
      · exact ⟨rfl, .inl rfl⟩
  | Deaf user deaf =>
      unfold post postDeaf
      dsimp only
      split
      · rename_i r hr
        exact ⟨rfl, .inr ⟨.PostDeaf user deaf, hnamed hr fun s r => s.modify r (·.setDeaf deaf)⟩⟩
      · exact ⟨rfl, .inl rfl⟩
  | AnticheatUser user action =>
      unfold post postAnticheatUser
      dsimp only
      split
      · exact ⟨rfl, .inl rfl⟩
      · rename_i r hr
        split
        · rename_i action _
          exact ⟨rfl, .inr ⟨.PostAnticheatUser user action,
            hnamed hr fun s r => s.applyAction r action⟩⟩
        · exact ⟨rfl, .inl rfl⟩
  | HeardClear sessionId =>
      unfold post postHeardClear
      dsimp only
      split
      · rename_i r hr
        refine ⟨rfl, .inr ⟨.PostHeardClear sessionId, ?_⟩⟩
        unfold ServerState.handleAdmin
        dsimp only
        rw [hr]
      · exact ⟨rfl, .inl rfl⟩
  | AnticheatUnban id => exact ⟨rfl, .inr ⟨.PostAnticheatUnban id, rfl⟩⟩
  | AnticheatConfig update => exact ⟨rfl, .inr ⟨.PostAnticheatConfig _, rfl⟩⟩
  | AnticheatClear => exact ⟨rfl, .inr ⟨.PostAnticheatClear, rfl⟩⟩

-- The two states differ in addresses only.
def SameButIps (a a' : AppState) : Prop := a.redact = a'.redact

-- With `hide_ips` set the responses do not depend on the addresses, and it stays set.
theorem ips_redacted :
    (∀ a a' : AppState, a.hideIps = true → a'.hideIps = true → a.SameButIps a' →
      ∀ now request, (a.get now request).2 = (a'.get now request).2) ∧
    ∀ (a : AppState) (requests : List (String × Post)),
      (requests.foldl (fun a e => (a.post e.1 e.2).1) a).hideIps = a.hideIps := by
  constructor
  · intro a a' h h' hsame now request
    calc (a.get now request).2
      _ = (a.redact.get now request).2 := (get_redact h request).symm
      _ = (a'.redact.get now request).2 := by rw [hsame]
      _ = (a'.get now request).2 := get_redact h' request
  · intro a requests
    induction requests generalizing a with
    | nil => rfl
    | cons e requests ih => exact (ih _).trans (post_spec e.1 e.2).1

theorem redact_modify {s : ServerState} {r : ClientRef} {f : Client → Client}
    (h : ∀ c : Client, (f c).redact = c.redact) : (s.modify r f).redact = s.redact := by
  have hheap : (fun q => ((s.modify r f).get q).redact) = fun q => (s.get q).redact := by
    funext q
    by_cases hq : q = r
    · subst hq
      rw [ServerState.get_modify_self, h]
    · rw [ServerState.get_modify_ne _ hq]
  exact congrArg (fun heap => { s.redact with heap }) hheap

theorem sameButIps_of_server {s : ServerState} (h : a.banTimes.length = s.bans.bans.length)
    (hserver : s.redact = a.server.redact) : a.SameButIps { a with server := s, stamped := h } := by
  unfold SameButIps redact
  simp only [hserver]

-- Two clients and a ban, once with other addresses.

def sampleBans (ip : String) : BanList := ⟨[⟨1, .Ban, some ip, none, "mal", "banni via panel"⟩], 2⟩

def sampleApp : AppState where
  server := { ServerState.sampleServer.afterAll ServerState.sampleClients with
    bans := sampleBans "10.0.0.9" }
  limits := ⟨60, 15, 30, 3, 25, 0, 500, 15, 70⟩
  hideIps := true
  serverLabel := "sample"
  webhook := none
  panelUrl := none
  logs := []
  shown := fun _ => ⟨"1.4.0", "CitizenFX", "Windows", 0, 0, 255, 0⟩
  banTimes := ["20:15:00"]
  stamped := rfl

def moved (s : ServerState) : ServerState :=
  { s with bans := sampleBans "172.16.0.9" }.modify 0 fun c => { c with peerIp := "172.16.0.1" }

theorem redact_moved {s : ServerState} (h : s.bans = sampleBans "10.0.0.9") :
    (moved s).redact = s.redact := by
  have hclients : (moved s).redact = { s with bans := sampleBans "172.16.0.9" }.redact :=
    redact_modify fun _ => rfl
  rw [hclients, ServerState.redact, ServerState.redact, h]
  rfl

def movedApp : AppState := { sampleApp with server := moved sampleApp.server, stamped := rfl }

theorem ips_redacted_sample :
    (sampleApp.server.get 0).peerIp ≠ (movedApp.server.get 0).peerIp ∧
      ∀ now request, (sampleApp.get now request).2 = (movedApp.get now request).2 := by
  have hsame : sampleApp.SameButIps movedApp := sameButIps_of_server _ (redact_moved rfl)
  exact ⟨by decide +kernel, ips_redacted.1 sampleApp movedApp rfl rfl hsame⟩

end AppState

end Mumble
