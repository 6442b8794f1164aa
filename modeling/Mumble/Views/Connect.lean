import Mumble.Views.Theorems

namespace Mumble

open Mumble.Lib

namespace Directory

variable {d d' : Directory} {k session : UInt32} {messages : List ClientMessage}

-- What a message says about one channel or one user does not depend on the others.

theorem hear_channels_congr (h : d.channels k = d'.channels k) (message : ClientMessage) :
    (d.hear message).channels k = (d'.hear message).channels k := by
  cases message with
  | RouteVoicePacket _ | SendVoicePacket _ => exact h
  | SendMessage message =>
      cases message with
      | ChannelState message =>
          cases hid : message.channelId with
          | none => simpa only [hear, apply, hid] using h
          | some k' =>
              by_cases hk : k = k'
              · subst hk
                simp only [hear, apply, hid, Function.update_self]
              · simpa only [hear, apply, hid, Function.update_of_ne hk] using h
      | ChannelRemove k' =>
          by_cases hk : k = k'
          · subst hk
            simp only [hear, apply, Function.update_self]
          · simpa only [hear, apply, Function.update_of_ne hk] using h
      | UserState message =>
          cases hsession : message.session with
          | none => simpa only [hear, apply, hsession] using h
          | some session =>
              cases hid : message.channelId with
              | none => simpa only [hear, apply, hsession, hid] using h
              | some k' => simpa only [hear, apply, hsession, hid] using h
      | UserRemove _ | UDPTunnel _ | Ping _ | ServerSync _ | CryptSetup _ | PermissionQuery _
      | CodecVersion _ | UserStats _ | ServerConfig _ => exact h

theorem hear_users_congr (h : d.users session = d'.users session) (message : ClientMessage) :
    (d.hear message).users session = (d'.hear message).users session := by
  cases message with
  | RouteVoicePacket _ | SendVoicePacket _ => exact h
  | SendMessage message =>
      cases message with
      | ChannelState message =>
          cases hid : message.channelId with
          | none => simpa only [hear, apply, hid] using h
          | some k' => simpa only [hear, apply, hid] using h
      | UserState message =>
          cases hsession : message.session with
          | none => simpa only [hear, apply, hsession] using h
          | some other =>
              cases hid : message.channelId with
              | none => simpa only [hear, apply, hsession, hid] using h
              | some k' =>
                  by_cases hother : session = other
                  · subst hother
                    simp only [hear, apply, hsession, hid, Function.update_self]
                  · simpa only [hear, apply, hsession, hid, Function.update_of_ne hother] using h
      | UserRemove message =>
          by_cases hother : session = message.session
          · subst hother
            simp only [hear, apply, Function.update_self]
          · simpa only [hear, apply, Function.update_of_ne hother] using h
      | ChannelRemove _ | UDPTunnel _ | Ping _ | ServerSync _ | CryptSetup _ | PermissionQuery _
      | CodecVersion _ | UserStats _ | ServerConfig _ => exact h

-- A part of the directory that one of several true messages tells, whichever it
-- is, is known after all of them; so is a part that was known before.
theorem foldl_hear_part {α : Type} (part : Directory → α)
    (hpart : ∀ {d d' : Directory}, part d = part d' →
      ∀ message, part (d.hear message) = part (d'.hear message))
    (htrue : ∀ message ∈ messages, d'.hear message = d')
    (h : part d = part d' ∨ ∃ message ∈ messages, ∀ d : Directory, part (d.hear message) = part d') :
    part (messages.foldl hear d) = part d' := by
  induction messages generalizing d with
  | nil => exact h.resolve_right (by simp)
  | cons message messages ih =>
      refine ih (fun other hother => htrue other (List.mem_cons_of_mem _ hother)) ?_
      rcases h with hknown | ⟨told, htold, hpoint⟩
      · have hheard := hpart hknown message
        rw [htrue message (List.mem_cons_self ..)] at hheard
        exact .inl hheard
      · rcases List.mem_cons.mp htold with rfl | hlater
        · exact .inl (hpoint d)
        · exact .inr ⟨told, hlater, hpoint⟩

-- True messages that leave nothing out make the whole directory, in any order.
theorem replay_eq (htrue : ∀ message ∈ messages, d.hear message = d)
    (hchannels : ∀ k, d.channels k = true →
      ∃ message ∈ messages, ∀ d' : Directory, (d'.hear message).channels k = true)
    (husers : ∀ session k, d.users session = some k →
      ∃ message ∈ messages, ∀ d' : Directory, (d'.hear message).users session = some k) :
    replay messages = d := by
  apply Directory.ext
  · funext k
    refine foldl_hear_part (fun d => d.channels k) hear_channels_congr htrue ?_
    cases hk : d.channels k with
    | false => exact .inl rfl
    | true => exact .inr (hchannels k hk)
  · funext session
    refine foldl_hear_part (fun d => d.users session) hear_users_congr htrue ?_
    cases hsession : d.users session with
    | none => exact .inl rfl
    | some k => exact .inr (husers session k hsession)

end Directory

namespace ServerState

variable {s t : ServerState} {r : ClientRef} {session : UInt32} {now : Instant}
  {x y : ServerState × MumbleResult} {f : ServerState → ServerState × MumbleResult}
  {messages : List ServerMessage}

-- Messages are written to a client, past its queue.
def write (s : ServerState) (r : ClientRef) (messages : List ServerMessage) : ServerState :=
  s.modify r fun c => { c with sent := c.sent ++ messages.map .SendMessage }

theorem get_write_self (s : ServerState) (r : ClientRef) (messages : List ServerMessage) :
    (s.write r messages).get r =
      { s.get r with sent := (s.get r).sent ++ messages.map .SendMessage } := get_modify_self ..

theorem get_write_ne {q : ClientRef} (h : q ≠ r) (messages : List ServerMessage) :
    (s.write r messages).get q = s.get q := get_modify_ne _ h

theorem registry_write (s : ServerState) (r : ClientRef) (messages : List ServerMessage) :
    (s.write r messages).registry = s.registry := registry_modify_same fun _ => rfl

theorem write_nil (s : ServerState) (r : ClientRef) : s.write r [] = s := by
  simp only [write, modify, List.map_nil, List.append_nil]
  exact set_get s r

theorem write_write (s : ServerState) (r : ClientRef) (messages messages' : List ServerMessage) :
    (s.write r messages).write r messages' = s.write r (messages ++ messages') := by
  unfold write
  rw [modify_modify]
  simp only [List.map_append, List.append_assoc]

-- It ends as given, or some messages get out and then it is an error.
def Ends (s : ServerState) (r : ClientRef) (y x : ServerState × MumbleResult) : Prop :=
  x = y ∨ ∃ before e, x = (s.write r before, .error e)

-- All of the messages get out, or only some of them.
def Writes (s : ServerState) (r : ClientRef) (messages : List ServerMessage)
    (x : ServerState × MumbleResult) : Prop := s.Ends r (s.write r messages, .ok ()) x

theorem Writes.andThen (h : s.Writes r messages x)
    (hf : (s.write r messages).Ends r y (f (s.write r messages))) : s.Ends r y (andThen x f) := by
  rcases h with rfl | ⟨before, e, rfl⟩
  · rcases hf with hy | ⟨before, e, hlost⟩
    · exact .inl hy
    · rw [write_write] at hlost
      exact .inr ⟨_, e, hlost⟩
  · exact .inr ⟨before, e, rfl⟩

theorem writes_call {send : Client → Client × MumbleResult} {message : ServerMessage}
    (hsend : send (s.get r) = (s.get r).sendMessage message) :
    s.Writes r [message] (s.call r send) := by
  unfold call
  rw [hsend, Client.sendMessage]
  cases (s.get r).send with
  | ok _ => exact .inl rfl
  | error e =>
      refine .inr ⟨[], e, ?_⟩
      rw [write_nil]
      exact congrArg (·, _) (set_get s r)

theorem writes_sendAll (s : ServerState) (r : ClientRef) (messages : List ServerMessage) :
    s.Writes r messages (s.sendAll r messages) := by
  induction messages generalizing s with
  | nil =>
      refine .inl ?_
      rw [write_nil]
      rfl
  | cons message messages ih =>
      have hfirst : s.Writes r [message] (s.call r fun c => c.sendMessage message) :=
        writes_call rfl
      have hrest := ih (s.write r [message])
      unfold Writes at hrest
      rw [write_write] at hrest
      exact hfirst.andThen hrest

def channelStates (s : ServerState) : List ServerMessage :=
  s.channels.index.values.map fun c => .ChannelState c.getChannelState

def userStates (s : ServerState) : List ServerMessage :=
  s.clients.values.map fun q => .UserState (s.get q).getUserState

-- Everything a new client is written.
def greeting (s : ServerState) (r : ClientRef) : List ServerMessage :=
  [.CodecVersion codecVersion] ++ (s.channelStates ++ s.userStates) ++
    [.UserState (s.get r).getUserState] ++
    [.ServerSync ⟨(s.get r).sessionId, Client.MAX_BANDWIDTH_IN_BITS, "SoZ Mumble Server"⟩] ++
    [.ServerConfig ⟨false, 0, 0⟩]

theorem writes_syncClientAndChannels (s : ServerState) (r : ClientRef) :
    s.Writes r (s.channelStates ++ s.userStates) (s.syncClientAndChannels r) := by
  have husers := writes_sendAll (s.write r s.channelStates) r s.userStates
  unfold Writes at husers
  rw [write_write] at husers
  exact (writes_sendAll s r s.channelStates).andThen husers

-- Neither the channels nor the users look different to the client for what it was
-- written before.
theorem channelStates_write (s : ServerState) (r : ClientRef) (messages : List ServerMessage) :
    (s.write r messages).channelStates = s.channelStates := rfl

theorem getUserState_write (s : ServerState) (r q : ClientRef) (messages : List ServerMessage) :
    ((s.write r messages).get q).getUserState = (s.get q).getUserState := by
  by_cases hq : q = r
  · subst hq
    rw [get_write_self]
    rfl
  · rw [get_write_ne hq]

theorem userStates_write (s : ServerState) (r : ClientRef) (messages : List ServerMessage) :
    (s.write r messages).userStates = s.userStates := by
  simp only [userStates, getUserState_write]
  rfl

-- A client is written the greeting and then everyone is told of it, or the
-- connection breaks on the way.
theorem clientRun_ends (s : ServerState) (r : ClientRef) :
    s.Ends r ((s.write r (s.greeting r)).broadcastMessage (.UserState (s.get r).getUserState),
      .ok ()) (s.clientRun r) := by
  have hsync (messages : List ServerMessage) : (s.write r messages).Writes r
      (s.channelStates ++ s.userStates) ((s.write r messages).syncClientAndChannels r) := by
    rw [← channelStates_write s r messages, ← userStates_write s r messages]
    exact writes_syncClientAndChannels _ r
  have hstate (messages : List ServerMessage) : (s.write r messages).Writes r
      [.UserState (s.get r).getUserState] ((s.write r messages).call r Client.sendMyUserState) := by
    rw [← getUserState_write s r r messages]
    exact writes_call rfl
  have hserverSync (messages : List ServerMessage) : (s.write r messages).Writes r
      [.ServerSync ⟨(s.get r).sessionId, Client.MAX_BANDWIDTH_IN_BITS, "SoZ Mumble Server"⟩]
      ((s.write r messages).call r Client.sendServerSync) := by
    refine writes_call ?_
    rw [get_write_self]
    rfl
  have hconfig (messages : List ServerMessage) : (s.write r messages).Writes r
      [.ServerConfig ⟨false, 0, 0⟩] ((s.write r messages).call r Client.sendServerConfig) :=
    writes_call rfl
  have hcodec : s.Writes r [.CodecVersion codecVersion]
      (s.call r fun c => c.sendMessage (.CodecVersion codecVersion)) := writes_call rfl
  unfold clientRun
  refine hcodec.andThen ?_
  refine (hsync _).andThen ?_
  rw [write_write]
  refine (hstate _).andThen ?_
  rw [write_write]
  refine (hserverSync _).andThen ?_
  rw [write_write]
  refine (hconfig _).andThen ?_
  rw [write_write, getUserState_write]
  exact .inl rfl

-- The greeting is true and leaves nothing out.

theorem apply_channelStates {message : ServerMessage} (h : message ∈ s.channelStates) :
    s.directory.apply message = s.directory := by
  obtain ⟨c, hc, rfl⟩ := List.mem_map.mp h
  obtain ⟨k, hk⟩ := HashIndex.mem_values.mp hc
  have hlook : s.channels.lookup k = some c := hk
  have hthere : s.directory.channels c.id = true := by
    rw [ChannelMap.id_of_lookup hlook]
    simp only [directory, ChannelMap.contains, hlook, Option.isSome_some]
  have hid : c.getChannelState.channelId = some c.id := c.cached
  simp only [Directory.apply, hid]
  rw [← hthere, Function.update_eq_self]

theorem apply_userState {q : ClientRef}
    (h : s.registry.clients (s.get q).sessionId = some q) :
    s.directory.apply (.UserState (s.get q).getUserState) = s.directory := by
  have hlook : s.clients.lookup (s.get q).sessionId = some q := h
  have hthere : s.directory.users (s.get q).sessionId = some (s.get q).channelId := by
    simp only [directory, hlook, Option.map_some]
  simp only [Directory.apply, Client.getUserState]
  rw [← hthere, Function.update_eq_self]

theorem replay_greeting (hindexed : s.registry.Indexed)
    (hlook : s.registry.clients (s.get r).sessionId = some r) :
    Directory.replay ((s.greeting r).map .SendMessage) = s.directory := by
  have hsync {message : ServerMessage} (h : message ∈ s.channelStates ∨ message ∈ s.userStates) :
      ClientMessage.SendMessage message ∈ (s.greeting r).map .SendMessage := by
    refine List.mem_map_of_mem ?_
    rcases h with h | h
    · simp [greeting, h]
    · simp [greeting, h]
  refine Directory.replay_eq ?_ ?_ ?_
  · intro heard hheard
    obtain ⟨message, hmessage, rfl⟩ := List.mem_map.mp hheard
    simp only [greeting, List.mem_append, List.mem_singleton] at hmessage
    rcases hmessage with (((rfl | hchannel | huser) | rfl) | rfl) | rfl
    · rfl
    · exact apply_channelStates hchannel
    · obtain ⟨q, hq, rfl⟩ := List.mem_map.mp huser
      obtain ⟨session, hsession⟩ := HashIndex.mem_values.mp hq
      refine apply_userState ?_
      rw [show (s.get q).sessionId = session from (hindexed.connected hsession).2]
      exact hsession
    · exact apply_userState hlook
    · rfl
    · rfl
  · intro k hk
    obtain ⟨c, hc⟩ := Option.isSome_iff_exists.mp hk
    have hmem : c ∈ s.channels.index.values := HashIndex.mem_values.mpr ⟨k, hc⟩
    refine ⟨_, hsync (.inl (List.mem_map_of_mem hmem)), fun d' => ?_⟩
    have hid : c.getChannelState.channelId = some k := by
      rw [← ChannelMap.id_of_lookup hc]
      exact c.cached
    simp only [Directory.hear, Directory.apply, hid, Function.update_self]
  · intro session k hk
    obtain ⟨q, hq, rfl⟩ := Option.map_eq_some_iff.mp hk
    have hmem : q ∈ s.clients.values := HashIndex.mem_values.mpr ⟨session, hq⟩
    refine ⟨_, hsync (.inr (List.mem_map_of_mem hmem)), fun d' => ?_⟩
    have hsession : (s.get q).sessionId = session := (hindexed.connected hq).2
    simp only [Directory.hear, Directory.apply, Client.getUserState, hsession,
      Function.update_self]

-- A state with one client more than another, who has been told nothing yet.
structure Arrived (s : ServerState) (r : ClientRef) (t : ServerState) : Prop where
  sound : t.registry.Sound
  look : t.registry.clients (t.get r).sessionId = some r
  old : ∀ {session q}, session ≠ (t.get r).sessionId → t.registry.clients session = some q →
    s.registry.clients session = some q ∧ t.get q = s.get q
  untold : (t.get r).sent = [] ∧ (t.get r).dropped = false
  directory : t.directory = s.directory.apply (.UserState (t.get r).getUserState)

namespace Arrived

variable (harrived : s.Arrived r t) (h : s.Current)
include harrived

theorem ne {q : ClientRef} (hsession : session ≠ (t.get r).sessionId)
    (hq : t.registry.clients session = some q) : q ≠ r := by
  intro hqr
  have hsame : (t.get q).sessionId = session := (harrived.sound.indexed.connected hq).2
  rw [hqr] at hsame
  exact hsession hsame.symm

include h

theorem sees {q : ClientRef} (hsession : session ≠ (t.get r).sessionId)
    (hq : t.registry.clients session = some q) (messages : List ServerMessage) :
    ((t.write r messages).get q).Sees s.directory := by
  obtain ⟨hold, hget⟩ := harrived.old hsession hq
  rw [get_write_ne (harrived.ne hsession hq), hget]
  exact h session q hold

-- The new client knows all from the greeting, the others from the broadcast.
theorem current_served : ((t.write r (t.greeting r)).broadcastMessage
    (.UserState (t.get r).getUserState)).Current := by
  have hregistry : ((t.write r (t.greeting r)).broadcastMessage
      (.UserState (t.get r).getUserState)).registry = t.registry :=
    (registry_broadcastMessage _ _).trans (registry_write t r _)
  intro session q hq
  rw [hregistry] at hq
  rw [directory_of_registry hregistry]
  have hq' : (t.write r (t.greeting r)).registry.clients session = some q := by
    rw [registry_write]
    exact hq
  by_cases hsession : session = (t.get r).sessionId
  · subst hsession
    obtain rfl : r = q := Option.some.inj (harrived.look.symm.trans hq)
    have hgreeted : ((t.write r (t.greeting r)).get r).Sees t.directory := by
      intro _ _
      rw [get_write_self, harrived.untold.1, List.nil_append]
      exact replay_greeting harrived.sound.indexed harrived.look
    rw [← apply_userState harrived.look]
    exact sees_broadcastMessage hgreeted hq' _
  · rw [harrived.directory]
    exact sees_broadcastMessage (harrived.sees h hsession hq _) hq' _

-- Nobody has heard of a client that is lost before the broadcast.
theorem current_lost (messages : List ServerMessage) : ((t.write r messages).endLoop r).Current := by
  let ended := (t.write r messages).modify r fun c =>
    { c with stopped := true, closed := true, finished := true }
  have hregistry : ended.registry = t.registry := by
    rw [← registry_write t r messages]
    exact registry_modify_same fun _ => rfl
  have hsession : (ended.get r).sessionId = (t.get r).sessionId := by
    rw [show ended.get r = _ from get_modify_self .., get_write_self]
  have hend : (t.write r messages).endLoop r = ended.disconnect (t.get r).sessionId := by
    rw [← hsession]
    rfl
  rw [hend]
  refine current_disconnect (r := r) (d := s.directory) ?_ ?_ ?_
  · rw [hregistry]
    exact harrived.look
  · intro other q hother hq
    rw [hregistry] at hq
    rw [show ended.get q = _ from get_modify_ne _ (harrived.ne hother hq)]
    exact harrived.sees h hother hq messages
  · rw [directory_of_registry hregistry, harrived.directory]
    simp only [Directory.apply, Client.getUserState, Function.update_idem]

end Arrived

section Connect

variable {username peerIp : String} {key : Vector UInt8 KEY_SIZE} {write : Writer}

theorem lookup_welcome (hfresh : s.getFreeSessionId.2 ∉ s.clients) :
    (s.welcome username peerIp key write now).clients.lookup session =
      if session = s.getFreeSessionId.2 then some s.next else s.clients.lookup session := by
  have hclients : (s.welcome username peerIp key write now).clients =
      HashIndex.insertNew s.getFreeSessionId.2 s.next s.clients := by
    unfold welcome
    dsimp only
    split_ifs <;> rfl
  rw [hclients]
  split_ifs with hsession
  · subst hsession
    exact HashIndex.lookup_insertNew_of_notMem hfresh
  · exact HashIndex.lookup_insertNew_ne hsession

theorem arrived_welcome (hsound : s.registry.Sound) (hroom : s.activeClients.toNat < MAX_CLIENTS) :
    s.Arrived s.next (s.welcome username peerIp key write now) := by
  have hfresh := getFreeSessionId_fresh hsound.counted hroom
  obtain ⟨mute, hself⟩ := get_welcome_self s username peerIp key write now
  have hsession : ((s.welcome username peerIp key write now).get s.next).sessionId =
      s.getFreeSessionId.2 := by rw [hself]; rfl
  have hother {session : UInt32} {q : ClientRef} (hq : s.clients.lookup session = some q) :
      (s.welcome username peerIp key write now).get q = s.get q :=
    get_welcome_ne (Nat.ne_of_lt (hsound.indexed.connected hq).1.1)
  constructor
  · exact sound_follows hsound
      (follows_welcome (P := fun _ => True) hsound.counted hroom (fun _ => trivial) fun _ => trivial)
  · rw [hsession]
    exact (lookup_welcome hfresh).trans (if_pos rfl)
  · intro session q hne hq
    rw [hsession] at hne
    have hold : s.clients.lookup session = some q :=
      ((lookup_welcome hfresh).trans (if_neg hne)).symm.trans hq
    exact ⟨hold, hother hold⟩
  · rw [hself]
    exact ⟨rfl, rfl⟩
  · rw [hself]
    apply Directory.ext
    · funext k
      exact congrArg (fun m : ChannelMap => m.contains k) channels_welcome
    · funext session
      simp only [directory, Directory.apply, Client.getUserState, Client.new]
      rw [lookup_welcome hfresh]
      split_ifs with hnew
      · subst hnew
        rw [Option.map_some, hself, Function.update_self]
        rfl
      · rw [Function.update_of_ne hnew]
        cases hlook : s.clients.lookup session with
        | none => rfl
        | some q => rw [Option.map_some, Option.map_some, hother hlook]

theorem current_handleNewClient (h : s.Current) (hsound : s.registry.Sound)
    (hended : (s.handleNewClient username peerIp key write now).2 ≠ .error .Waiting) :
    (s.handleNewClient username peerIp key write now).1.Current := by
  rcases handleNewClient_cases username peerIp key write with hsame | ⟨hroom, hrun⟩
  · rw [hsame]
    exact h
  · have harrived : s.Arrived s.next (s.welcome username peerIp key write now) :=
      arrived_welcome hsound hroom
    have hends := clientRun_ends (s.welcome username peerIp key write now) s.next
    rcases hrun with ⟨hresult, hserved⟩ | ⟨t, e, hlost, hresult⟩
    · rcases hends with hall | ⟨before, e, hlost⟩
      · rw [congrArg Prod.fst (hserved.symm.trans hall)]
        exact harrived.current_served h
      · have hok := hresult.resolve_right hended
        rw [hserved.symm.trans hlost] at hok
        cases hok
    · rcases hends with hall | ⟨before, e', hbroken⟩
      · cases congrArg Prod.snd (hlost.symm.trans hall)
      · obtain rfl : t = (s.welcome username peerIp key write now).write s.next before :=
          congrArg Prod.fst (hlost.symm.trans hbroken)
        rw [hresult]
        exact harrived.current_lost h before

end Connect

end ServerState

end Mumble
