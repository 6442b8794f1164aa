import Mumble.Acts

/-!
The tree of channels. A channel is made under a parent that is there, and nobody looks
at its children when it is deleted.
-/

namespace Mumble

open Mumble.Lib

section

variable {κ : Type} {t : κ → Option (Option κ)} {k q : κ}

-- Of nodes that are given with their parents: every node has a parent, and that one is
-- a node.
def Rooted (t : κ → Option (Option κ)) : Prop := ∀ k p, t k = some p → ∃ q, p = some q ∧ t q ≠ none

variable [DecidableEq κ]

theorem Rooted.add (h : Rooted t) (hq : t q ≠ none) :
    Rooted (Function.update t k (some ((t k).getD (some q)))) := by
  have hstill {x : κ} (hx : t x ≠ none) :
      Function.update t k (some ((t k).getD (some q))) x ≠ none := by
    by_cases hk : x = k
    · subst hk
      simp
    · rwa [Function.update_of_ne hk]
  intro x p hx
  by_cases hk : x = k
  · subst hk
    rw [Function.update_self, Option.some.injEq] at hx
    rcases Option.eq_none_or_eq_some (t x) with hold | ⟨old, hold⟩
    · rw [hold, Option.getD_none] at hx
      exact ⟨q, hx.symm, hstill hq⟩
    · rw [hold, Option.getD_some] at hx
      obtain ⟨parent, hparent, hthere⟩ := h x old hold
      exact ⟨parent, hx.symm.trans hparent, hstill hthere⟩
  · rw [Function.update_of_ne hk] at hx
    obtain ⟨parent, rfl, hparent⟩ := h x p hx
    exact ⟨parent, rfl, hstill hparent⟩

theorem Rooted.erase (h : Rooted t) (hleaf : ∀ x ≠ k, t x ≠ some (some k)) :
    Rooted (Function.update t k none) := by
  intro x p hx
  by_cases hk : x = k
  · subst hk
    rw [Function.update_self] at hx
    cases hx
  · rw [Function.update_of_ne hk] at hx
    obtain ⟨parent, rfl, hparent⟩ := h x p hx
    refine ⟨parent, rfl, ?_⟩
    have hne : parent ≠ k := by
      rintro rfl
      exact hleaf x hk hx
    rwa [Function.update_of_ne hne]

end

namespace ServerState

variable {s s' : ServerState} {r : ClientRef} {k session : UInt32} {message : ChannelState}

-- The channels with the parents that they advertise.
def tree (s : ServerState) (k : UInt32) : Option (Option UInt32) :=
  (s.channels.lookup k).map fun c => c.getChannelState.parent

-- The channel goes when the session leaves it.
def LastOut (s : ServerState) (session k : UInt32) : Prop :=
  ∃ c, s.channels.lookup k = some c ∧ c.temporary = true ∧ ∀ other ∈ c.clients, other = session

def Childless (s : ServerState) (k : UInt32) : Prop :=
  ∀ child c, s.channels.lookup child = some c → child ≠ k → c.getChannelState.parent ≠ some k

theorem tree_congr (h : s'.channels = s.channels) : s'.tree = s.tree := by
  funext k
  rw [tree, tree, h]

-- Who is in a channel or listens to it does not matter.
theorem tree_alter (s : ServerState) (k : UInt32) (f : Channel → Channel) (hf : ∀ c, (f c).id = c.id)
    (hstate : ∀ c, (f c).getChannelState = c.getChannelState) :
    { s with channels := s.channels.alter k f hf }.tree = s.tree := by
  funext x
  unfold tree
  by_cases hx : x = k
  · subst hx
    rw [ChannelMap.lookup_alter_self, Option.map_map]
    refine congrArg (fun g => Option.map g _) (funext fun c => ?_)
    exact congrArg ChannelState.parent (hstate c)
  · rw [ChannelMap.lookup_alter_ne hx]

theorem tree_alterClients (s : ServerState) (k : UInt32)
    (f : HashIndex UInt32 ClientRef → HashIndex UInt32 ClientRef) :
    { s with channels := s.channels.alterClients k f }.tree = s.tree :=
  tree_alter s k _ _ fun _ => rfl

-- Nor does what everyone is told.
theorem channels_broadcastMessage (s : ServerState) (message : ServerMessage) :
    (s.broadcastMessage message).channels = s.channels :=
  (does_foldl (A := fun _ _ _ => True) (K := fun part => part ≠ .Channels)
    (fun s r => does_trySend (lenient_all 0) s r fun _ => trivial) s _).frame.channels
      (not_not.mpr rfl)

theorem tree_broadcastMessage (s : ServerState) (message : ServerMessage) :
    (s.broadcastMessage message).tree = s.tree :=
  tree_congr (channels_broadcastMessage s message)

theorem tree_deleteChannel (s : ServerState) (k : UInt32) :
    (s.deleteChannel k).tree = Function.update s.tree k none := by
  rw [deleteChannel, tree_broadcastMessage]
  funext x
  unfold tree
  by_cases hx : x = k
  · subst hx
    rw [Function.update_self, ChannelMap.lookup_erase_self]
    rfl
  · rw [Function.update_of_ne hx, ChannelMap.lookup_erase_ne hx]

theorem Childless.leaf (h : s.Childless k) : ∀ x ≠ k, s.tree x ≠ some (some k) := by
  intro x hx htree
  obtain ⟨c, hc, hparent⟩ := Option.map_eq_some_iff.mp htree
  exact h x c hc hx hparent

theorem rooted_handleClientLeftChannel (h : Rooted s.tree)
    (hleaf : s.LastOut session k → s.Childless k) :
    Rooted (s.handleClientLeftChannel session k).1.tree := by
  unfold handleClientLeftChannel
  split
  · rename_i c hc
    dsimp only
    split_ifs with hstays
    · rwa [tree_alterClients]
    · rw [tree_deleteChannel, tree_alterClients]
      refine h.erase (hleaf ⟨c, hc, ?_⟩).leaf
      simp only [Bool.or_eq_true, Bool.not_eq_true', not_or, Bool.not_eq_false,
        List.isEmpty_iff] at hstays
      refine ⟨hstays.1, fun other hother => ?_⟩
      by_contra hne
      exact HashIndex.entries_eq_nil_iff.mp hstays.2 other (AList.mem_erase.mpr ⟨hne, hother⟩)
  · rename_i hnone
    have hmissing : s.tree k = none := by
      rw [tree, hnone]
      rfl
    rwa [tree_deleteChannel, ← hmissing, Function.update_eq_self]

theorem tree_announceJoin (s : ServerState) (r : ClientRef) (k : UInt32) :
    (s.announceJoin r k).tree = s.tree := by
  rw [announceJoin, tree_broadcastMessage]
  exact tree_alterClients s k _

theorem lookup_announceJoin_ne {k' : UInt32} (h : k' ≠ k) :
    (s.announceJoin r k).channels.lookup k' = s.channels.lookup k' := by
  rw [announceJoin, channels_broadcastMessage]
  have hentered : (s.enterChannel r k).channels =
      s.channels.alterClients k (HashIndex.insertNew (s.get r).sessionId r) := rfl
  rw [hentered, ChannelMap.alterClients, ChannelMap.lookup_alter_ne h]

-- Joining a channel may delete the one that is left.
theorem rooted_setClientChannel (h : Rooted s.tree)
    (hleaf : s.channels.lookup k ≠ none → (s.get r).channelId ≠ k →
      s.LastOut (s.get r).sessionId (s.get r).channelId → s.Childless (s.get r).channelId) :
    Rooted (s.setClientChannel r k).1.tree := by
  by_cases hlook : s.channels.lookup k = none
  · rw [setClientChannel_none r hlook]
    exact h
  · rw [setClientChannel_some r hlook]
    have hjoined : Rooted (s.announceJoin r k).tree := by rwa [tree_announceJoin]
    dsimp only
    split_ifs with hsame
    · exact hjoined
    · refine rooted_handleClientLeftChannel hjoined ?_
      rintro ⟨c, hc, hlast⟩
      rw [lookup_announceJoin_ne hsame] at hc
      have hchildless := hleaf hlook hsame ⟨c, hc, hlast⟩
      -- the members changed, the parents did not
      intro child c' hc' hne hparent
      refine hchildless.leaf child hne ?_
      rw [← tree_announceJoin s r k, tree, hc']
      exact congrArg some hparent

theorem tree_addChannel (s : ServerState) (message : ChannelState) :
    (s.addChannel message).1.tree =
      Function.update s.tree (s.addChannel message).2.id
        (some ((s.tree (s.addChannel message).2.id).getD (some (message.parent.getD 0)))) := by
  funext x
  unfold tree
  by_cases hx : x = (s.addChannel message).2.id
  · subst hx
    have hinsert := ChannelMap.lookup_insert_self (m := s.channels) (s.addChannel message).2
    rw [Function.update_self]
    refine (congrArg (Option.map fun c : Channel => c.getChannelState.parent) hinsert).trans ?_
    cases s.channels.lookup (s.addChannel message).2.id with
    | none => rfl
    | some old => rfl
  · rw [Function.update_of_ne hx]
    exact congrArg _ (ChannelMap.lookup_insert_ne (m := s.channels) _ hx)

theorem lookup_announceChannel_ne (h : k ≠ (s.addChannel message).2.id) :
    (s.announceChannel message).channels.lookup k = s.channels.lookup k := by
  rw [announceChannel, channels_broadcastMessage]
  exact ChannelMap.lookup_insert_ne (m := s.channels) _ h

theorem tree_announceChannel (s : ServerState) (message : ChannelState) :
    (s.announceChannel message).tree = (s.addChannel message).1.tree :=
  tree_broadcastMessage _ _

-- No channel is deleted that another one has as its parent.
def Spares (s : ServerState) : Act → Prop
  | .Create r message => s.Accepts message →
      s.LastOut (s.get r).sessionId (s.get r).channelId →
        s.Childless (s.get r).channelId ∧ message.parent ≠ some (s.get r).channelId
  | .Join r k => s.channels.lookup k ≠ none → (s.get r).channelId ≠ k →
      s.LastOut (s.get r).sessionId (s.get r).channelId → s.Childless (s.get r).channelId
  | .Disconnect session => ∀ r, s.clients.lookup session = some r →
      s.LastOut session (s.get r).channelId → s.Childless (s.get r).channelId
  | _ => True

theorem rooted_handleChannelState (h : Rooted s.tree) (hspares : s.Spares (.Create r message)) :
    Rooted (s.handleChannelState r message).1.tree := by
  rcases handleChannelState_cases s r message with hsame | ⟨haccepts, hmade⟩
  · rwa [hsame]
  · rw [hmade]
    have hparent : s.tree (message.parent.getD 0) ≠ none := by
      obtain ⟨c, hc⟩ := Option.isSome_iff_exists.mp haccepts.parent
      rw [tree, hc]
      exact Option.some_ne_none _
    have hadded : Rooted (s.announceChannel message).tree := by
      rw [tree_announceChannel, tree_addChannel]
      exact h.add hparent
    have hclient : ((s.announceChannel message).get r).sessionId = (s.get r).sessionId ∧
        ((s.announceChannel message).get r).channelId = (s.get r).channelId := by
      have hentry : (s.announceChannel message).registry.entry = s.registry.entry := by
        rw [registry_announceChannel haccepts.temporary]
        rfl
      exact ⟨congrArg (fun entry => (entry r).sessionId) hentry,
        congrArg (fun entry => (entry r).channelId) hentry⟩
    refine rooted_setClientChannel hadded ?_
    rw [hclient.1, hclient.2]
    rintro - hne ⟨c, hc, hlast⟩
    rw [lookup_announceChannel_ne hne] at hc
    obtain ⟨hchildless, hother⟩ := hspares haccepts ⟨c, hc, hlast⟩
    intro child c' hc' hchild hc'parent
    by_cases hnew : child = (s.addChannel message).2.id
    · have htree : (s.announceChannel message).tree child = some (some (s.get r).channelId) := by
        rw [tree, hc']
        exact congrArg some hc'parent
      rw [tree_announceChannel, tree_addChannel, ← hnew, Function.update_self,
        Option.some.injEq] at htree
      obtain ⟨parent, hmessage⟩ := Option.ne_none_iff_exists'.mp haccepts.child
      -- the id was taken, or the channel is new
      rcases Option.eq_none_or_eq_some (s.tree child) with hnone | ⟨old, hold⟩
      · rw [hnone, Option.getD_none, hmessage, Option.getD_some] at htree
        exact hother (hmessage.trans htree)
      · rw [hold, Option.getD_some] at htree
        exact hchildless.leaf child hchild (htree ▸ hold)
    · rw [lookup_announceChannel_ne hnew] at hc'
      exact hchildless child c' hc' hchild hc'parent

theorem rooted_disconnect (h : Rooted s.tree) (hspares : s.Spares (.Disconnect session)) :
    Rooted (s.disconnect session).tree := by
  unfold disconnect
  split
  · exact h
  · rename_i r hr
    have hdetached : (s.detachClient r session).channels = s.channels :=
      (does_detachClient (A := fun _ _ _ => True) (K := fun part => part ≠ .Channels)
        (lenient_all 0) s r session).frame.channels (not_not.mpr rfl)
    have htold (message : ServerMessage) :
        ((s.detachClient r session).broadcastMessage message).channels = s.channels :=
      (channels_broadcastMessage _ message).trans hdetached
    have hdeleted : Rooted
        ((s.detachClient r session).broadcastClientDelete session (s.get r).channelId).tree := by
      unfold broadcastClientDelete
      refine rooted_handleClientLeftChannel ?_ ?_
      · rwa [tree_congr (htold _)]
      · intro hlast
        unfold LastOut Childless at *
        rw [htold] at hlast ⊢
        exact hspares r hr hlast
    dsimp only
    split
    · rwa [tree_alterClients]
    · exact hdeleted

theorem tree_changeListeners (s : ServerState) (r : ClientRef) (message : UserState) :
    (s.changeListeners r message).tree = s.tree := by
  have hadd (keys : List UInt32) (t : ServerState) :
      (keys.foldl (fun s k => s.addListener r k) t).tree = t.tree := by
    induction keys generalizing t with
    | nil => rfl
    | cons k keys ih => exact (ih _).trans (tree_alter t k _ _ fun _ => rfl)
  have hremove (keys : List UInt32) (t : ServerState) :
      (keys.foldl (fun s k => s.removeListener r k) t).tree = t.tree := by
    induction keys generalizing t with
    | nil => rfl
    | cons k keys ih => exact (ih _).trans (tree_alter t k _ _ fun _ => rfl)
  exact (hremove _ _).trans (hadd _ _)

theorem rooted_actStep {act : Act} (h : Rooted s.tree) (hspares : s.Spares act)
    (hstep : s.ActStep act s') : Rooted s'.tree := by
  cases act with
  | Idle => rwa [tree_congr hstep]
  | Welcome username peerIp key write now =>
      rw [hstep, tree_congr channels_welcome]
      exact h
  | Create r message =>
      rw [hstep]
      exact rooted_handleChannelState h hspares
  | Join r k =>
      rw [hstep]
      exact rooted_setClientChannel h hspares
  | Listen r message =>
      rw [hstep, tree_changeListeners]
      exact h
  | Disconnect session =>
      rw [hstep]
      exact rooted_disconnect h hspares

-- An act that deletes no channel that has children.
def SparingStep (s : ServerState) (act : Act) (s' : ServerState) : Prop :=
  s.Spares act ∧ s.ActStep act s'

theorem rooted_new (removePositionalData : Bool) (anticheat : AnticheatConfig) (bans : BanList) :
    Rooted (ServerState.new removePositionalData anticheat bans).tree := by
  intro k parent hk
  have hroot : (ServerState.new removePositionalData anticheat bans).tree 0 = some (some 0) := rfl
  by_cases hzero : k = 0
  · subst hzero
    rw [hroot] at hk
    cases hk
    exact ⟨0, rfl, by simp [hroot]⟩
  · have hnone : (ServerState.new removePositionalData anticheat bans).channels.lookup k = none :=
      ChannelMap.lookup_insert_ne _ hzero
    rw [tree, hnone] at hk
    cases hk

-- As long as no channel with children is deleted, every parent that is advertised is
-- there.
theorem no_dangling_parents {removePositionalData : Bool} {anticheat : AnticheatConfig}
    {bans : BanList} {acts : List Act}
    (hrun : Run SparingStep (.new removePositionalData anticheat bans) acts s) {c : Channel}
    (hc : s.channels.lookup k = some c) :
    ∃ parent, c.getChannelState.parent = some parent ∧ s.channels.lookup parent ≠ none := by
  have hrooted := hrun.invariant (I := fun s => Rooted s.tree) (P := fun _ => True)
    (fun _ hs hstep => rooted_actStep hs hstep.1 hstep.2) (fun _ _ => trivial)
    (rooted_new removePositionalData anticheat bans)
  have htree : s.tree k = some c.getChannelState.parent := by
    rw [tree, hc]
    rfl
  obtain ⟨parent, hparent, hthere⟩ := hrooted k _ htree
  refine ⟨parent, hparent, fun hnone => hthere ?_⟩
  rw [tree, hnone]
  rfl

-- A request for a temporary channel.
def sampleRequest (parent : UInt32) (name : String) : ChannelState :=
  ⟨none, some parent, some name, none, some true, none⟩

-- A client makes a channel and goes there, makes another one beside it and goes there, with
-- which the first one is deleted.

def sampleGuest : ServerState :=
  sampleServer.welcome "eve" "10.0.0.1" (Vector.replicate KEY_SIZE 1) .Open 0

def sampleDen : ServerState := (sampleGuest.handleChannelState 0 (sampleRequest 0 "den")).1

def sampleAttic : ServerState := (sampleDen.handleChannelState 0 (sampleRequest 0 "attic")).1

theorem spares_sampleGuest : sampleGuest.Spares (.Create 0 (sampleRequest 0 "den")) := by
  rintro - ⟨c, hc, htemporary, -⟩
  have hroot : (sampleGuest.channels.lookup 0).map Channel.temporary = some false := rfl
  rw [show sampleGuest.channels.lookup 0 = some c from hc] at hroot
  cases htemporary.symm.trans (Option.some.inj hroot)

theorem spares_sampleDen : sampleDen.Spares (.Create 0 (sampleRequest 0 "attic")) := by
  refine fun _ _ => ⟨fun child c hc _ => ?_, by decide +kernel⟩
  have hchildless : sampleDen.channels.index.values.all (fun c =>
      c.getChannelState.parent != some (sampleDen.get 0).channelId) = true := by decide +kernel
  exact bne_iff_ne.mp (List.all_eq_true.mp hchildless c (HashIndex.mem_values.mpr ⟨child, hc⟩))

theorem no_dangling_parents_sample :
    Run SparingStep sampleServer
      [.Welcome "eve" "10.0.0.1" (Vector.replicate KEY_SIZE 1) .Open 0,
        .Create 0 (sampleRequest 0 "den"), .Create 0 (sampleRequest 0 "attic")] sampleAttic ∧
      (sampleDen.channels.lookup 1).isSome = true ∧ sampleAttic.channels.lookup 1 = none ∧
      ∀ k c, sampleAttic.channels.lookup k = some c → ∃ parent,
        c.getChannelState.parent = some parent ∧ sampleAttic.channels.lookup parent ≠ none := by
  have hguest : sampleServer.SparingStep
      (.Welcome "eve" "10.0.0.1" (Vector.replicate KEY_SIZE 1) .Open 0) sampleGuest := ⟨trivial, rfl⟩
  have hden : sampleGuest.SparingStep (.Create 0 (sampleRequest 0 "den")) sampleDen :=
    ⟨spares_sampleGuest, rfl⟩
  have hattic : sampleDen.SparingStep (.Create 0 (sampleRequest 0 "attic")) sampleAttic :=
    ⟨spares_sampleDen, rfl⟩
  have hrun := Run.Step hguest (.Step hden (.single hattic))
  have hgone : (sampleAttic.channels.lookup 1).isNone = true := by decide +kernel
  exact ⟨hrun, by decide +kernel, Option.isNone_iff_eq_none.mp hgone,
    fun k c hc => no_dangling_parents hrun hc⟩

-- A client makes a channel, and then another one under it: it goes there, and the
-- parent is deleted.
def sampleDangling : ServerState :=
  sampleServer.afterAll (sampleClients ++
    [(0, .Tcp 0 (.ChannelState (sampleRequest 0 "den"))),
      (0, .Tcp 0 (.ChannelState (sampleRequest 1 "attic")))])

theorem parent_deleted :
    sampleDangling.Reachable ∧
      ∃ c, sampleDangling.channels.lookup 2 = some c ∧ c.getChannelState.parent = some 1 ∧
        sampleDangling.channels.lookup 1 = none := by
  have htree : (sampleDangling.channels.lookup 2).map (fun c => c.getChannelState.parent) =
      some (some 1) := by decide +kernel
  have hgone : (sampleDangling.channels.lookup 1).isNone = true := by decide +kernel
  obtain ⟨c, hc, hparent⟩ := Option.map_eq_some_iff.mp htree
  exact ⟨reachable_sample _, c, hc, hparent, Option.isNone_iff_eq_none.mp hgone⟩

end ServerState

end Mumble
