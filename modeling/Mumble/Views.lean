import Mumble.Deeds.Steps
import Mumble.Sends

namespace Mumble

open Mumble.Lib

-- Which channels there are and which channel each user is in: what a client learns
-- from the messages it is sent.
@[ext] structure Directory where
  channels : UInt32 → Bool
  users : UInt32 → Option UInt32

namespace Directory

def empty : Directory := ⟨fun _ => false, fun _ => none⟩

def apply (d : Directory) : ServerMessage → Directory
  | .ChannelState message =>
      match message.channelId with
      | some k => { d with channels := Function.update d.channels k true }
      | none => d
  | .ChannelRemove k => { d with channels := Function.update d.channels k false }
  | .UserState message =>
      match message.session, message.channelId with
      | some session, some k => { d with users := Function.update d.users session (some k) }
      | _, _ => d
  | .UserRemove message => { d with users := Function.update d.users message.session none }
  | _ => d

def hear (d : Directory) : ClientMessage → Directory
  | .SendMessage message => d.apply message
  | _ => d

def replay (messages : List ClientMessage) : Directory := messages.foldl hear empty

theorem apply_of_not_news {message : ServerMessage} (h : message.isNews = false)
    (d : Directory) : d.apply message = d := by
  cases message <;> first | rfl | cases h

-- To be told twice changes nothing.
theorem apply_apply (d : Directory) (message : ServerMessage) :
    (d.apply message).apply message = d.apply message := by
  cases message with
  | ChannelState message =>
      cases hk : message.channelId with
      | none => simp only [apply, hk]
      | some k => simp only [apply, hk, Function.update_idem]
  | ChannelRemove k => simp only [apply, Function.update_idem]
  | UserState message =>
      cases hsession : message.session with
      | none => simp only [apply, hsession]
      | some session =>
          cases hk : message.channelId with
          | none => simp only [apply, hsession, hk]
          | some k => simp only [apply, hsession, hk, Function.update_idem]
  | UserRemove message => simp only [apply, Function.update_idem]
  | UDPTunnel _ | Ping _ | ServerSync _ | CryptSetup _ | PermissionQuery _ | CodecVersion _
  | UserStats _ | ServerConfig _ => rfl

end Directory

def Registry.directory (g : Registry) : Directory where
  channels := fun k => (g.channels k).isSome
  users := fun session => (g.clients session).map fun r => (g.entry r).channelId

theorem Registry.directory_congr {g g' : Registry} (hchannels : g'.channels = g.channels)
    (hclients : g'.clients = g.clients)
    (hentry : ∀ q, (g'.entry q).channelId = (g.entry q).channelId) :
    g'.directory = g.directory := by
  simp only [directory, hchannels, hclients, hentry]

-- The directory as the server has it.
def ServerState.directory (s : ServerState) : Directory where
  channels := fun k => s.channels.contains k
  users := fun session => (s.clients.lookup session).map fun r => (s.get r).channelId

theorem ServerState.registry_directory (s : ServerState) :
    s.registry.directory = s.directory := by
  apply Directory.ext
  · funext k
    exact Option.isSome_map
  · rfl

-- A message that tells a client nothing about channels and users.
def ClientMessage.Quiet (message : ClientMessage) : Prop := ∀ d : Directory, d.hear message = d

theorem ClientMessage.quiet_of_not_news (message : ServerMessage) (h : message.isNews = false) :
    (ClientMessage.SendMessage message).Quiet := Directory.apply_of_not_news h

namespace Client

variable {c c' : Client} {d : Directory}

-- What the client was told amounts to the directory, unless it missed something or its
-- queue is closed.
def Sees (d : Directory) (c : Client) : Prop :=
  c.dropped = false → c.closed = false → Directory.replay c.sent = d

theorem Sees.of_extends (h : c.Sees d) (hextends : c.Extends ClientMessage.Quiet c') :
    c'.Sees d := by
  intro hdropped hclosed
  have hkept : c.dropped = false := by
    rw [← Bool.not_eq_true]
    intro hlost
    rw [hextends.dropped hlost] at hdropped
    cases hdropped
  have hopen : c.closed = false := by
    rw [← Bool.not_eq_true]
    intro hgone
    rw [hextends.closed hgone] at hclosed
    cases hclosed
  obtain ⟨messages, hsent, hquiet⟩ := hextends.sent
  have hsame : messages.foldl Directory.hear d = d := by
    clear hsent
    induction messages with
    | nil => rfl
    | cons message messages ih =>
        rw [List.foldl_cons, hquiet message (List.mem_cons_self ..)]
        exact ih fun other hother => hquiet other (List.mem_cons_of_mem _ hother)
  rw [hsent, Directory.replay, List.foldl_append]
  exact (congrArg (messages.foldl Directory.hear) (h hkept hopen)).trans hsame

theorem Sees.trySend (h : c.Sees d) (message : ClientMessage) :
    (c.trySend message).1.Sees (d.hear message) := by
  unfold Client.trySend
  split_ifs with hclosed
  · intro _ hopen
    rw [hclosed] at hopen
    cases hopen
  · exact fun hdropped => nomatch hdropped
  · intro hdropped hopen
    rw [Directory.replay, List.foldl_append, List.foldl_cons, List.foldl_nil]
    exact congrArg (fun d => Directory.hear d message) (h hdropped hopen)

end Client

namespace ServerState

variable {s s' : ServerState} {r q : ClientRef} {d : Directory} {message : ServerMessage}

theorem get_trySend_self (s : ServerState) (r : ClientRef) (message : ClientMessage) :
    (s.trySend r message).get r = ((s.get r).trySend message).1 := by
  unfold ServerState.trySend call
  dsimp only
  split_ifs
  · exact get_set_self ..
  · exact get_set_self ..

theorem get_trySend_ne (h : q ≠ r) (message : ClientMessage) :
    (s.trySend r message).get q = s.get q := by
  unfold ServerState.trySend call
  dsimp only
  split_ifs
  · exact get_set_ne _ h
  · exact get_set_ne _ h

theorem get_foldl_trySend_ne {refs : List ClientRef} (h : q ∉ refs) (message : ClientMessage) :
    (refs.foldl (fun s r => s.trySend r message) s).get q = s.get q := by
  induction refs generalizing s with
  | nil => rfl
  | cons r refs ih =>
      obtain ⟨hqr, hrest⟩ := not_or.mp (mt List.mem_cons.mpr h)
      rw [List.foldl_cons, ih hrest, get_trySend_ne hqr]

-- A client on the list hears the message, as often as it is on the list.
theorem sees_foldl_trySend {refs : List ClientRef} (hr : r ∈ refs) (h : (s.get r).Sees d) :
    ((refs.foldl (fun s r => s.trySend r (.SendMessage message)) s).get r).Sees
      (d.apply message) := by
  induction refs generalizing s d with
  | nil => simp at hr
  | cons p refs ih =>
      rw [List.foldl_cons]
      by_cases hp : r = p
      · subst hp
        have hheard : ((s.trySend r (.SendMessage message)).get r).Sees (d.apply message) := by
          rw [get_trySend_self]
          exact h.trySend _
        by_cases hrest : r ∈ refs
        · have htwice := ih hrest hheard
          rw [Directory.apply_apply] at htwice
          exact htwice
        · rw [get_foldl_trySend_ne hrest]
          exact hheard
      · have hrest : r ∈ refs := (List.mem_cons.mp hr).resolve_left hp
        refine ih hrest ?_
        rw [get_trySend_ne hp]
        exact h

end ServerState

end Mumble
