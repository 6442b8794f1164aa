import Mumble.Lib.Run
import Mumble.State

namespace Mumble

-- What the server's tables say about its clients and channels, without the
-- messages, the keys and the statistics. The tables are functions here and the
-- operations on them say what they are for; the code is shown to follow them.

structure Entry where
  sessionId : UInt32
  channelId : UInt32
  mute : Bool
  deaf : Bool
  cancelled : Bool
  udpSocketAddr : Option SocketAddr

structure Room where
  temporary : Bool
  members : UInt32 → Option ClientRef
  listeners : UInt32 → Option ClientRef

structure Registry where
  entry : ClientRef → Entry
  next : ClientRef
  clients : UInt32 → Option ClientRef
  withoutUdp : UInt32 → Option ClientRef
  bySocket : SocketAddr → Option ClientRef
  channels : UInt32 → Option Room
  -- how many clients there are, and the counter that is kept of them
  size : Nat
  active : UInt32

namespace Registry

-- A client that has not been disconnected.
def Running (g : Registry) (r : ClientRef) : Prop := r < g.next ∧ (g.entry r).cancelled = false

def Connected (g : Registry) (r : ClientRef) : Prop := ∃ session, g.clients session = some r

-- A client that is there is counted.
def Populated (g : Registry) (session : UInt32) : Prop := g.clients session ≠ none → g.size ≠ 0

def setEntry (g : Registry) (r : ClientRef) (f : Entry → Entry) : Registry :=
  { g with entry := Function.update g.entry r (f (g.entry r)) }

-- Changes a channel, if it is there.
def setRoom (g : Registry) (k : UInt32) (f : Room → Option Room) : Registry :=
  { g with channels := Function.update g.channels k ((g.channels k).bind f) }

-- Writes a key that has no value yet.
def keep {κ : Type} [DecidableEq κ] (m : κ → Option ClientRef) (k : κ) (r : ClientRef) :
    κ → Option ClientRef :=
  Function.update m k (some ((m k).getD r))

def enter (g : Registry) (r : ClientRef) (k : UInt32) : Registry :=
  g.setRoom k fun room => some { room with members := keep room.members (g.entry r).sessionId r }

open Classical in
-- A session goes out of a channel. A temporary channel goes with its last member.
noncomputable def leave (g : Registry) (session k : UInt32) : Registry :=
  g.setRoom k fun room =>
    let members := Function.update room.members session none
    if room.temporary ∧ ∀ other, members other = none then none else some { room with members }

noncomputable def join (g : Registry) (r : ClientRef) (k : UInt32) : Registry :=
  let entered := (g.setEntry r fun e => { e with channelId := k }).enter r k
  if (g.entry r).channelId = k then entered
  else entered.leave (g.entry r).sessionId (g.entry r).channelId

def create (g : Registry) (k : UInt32) : Registry :=
  { g with
    channels := Function.update g.channels k
      (some ((g.channels k).getD ⟨true, fun _ => none, fun _ => none⟩)) }

-- Frees an address, if one is given.
def release (g : Registry) (addr : Option SocketAddr) : Registry :=
  { g with bySocket := fun a => if some a = addr then none else g.bySocket a }

def bind (g : Registry) (r : ClientRef) (addr : SocketAddr) : Registry :=
  let g' := (g.setEntry r fun e => { e with udpSocketAddr := some addr }).release
    (g.entry r).udpSocketAddr
  { g' with
    bySocket := keep g'.bySocket addr r
    withoutUdp := Function.update g'.withoutUdp (g.entry r).sessionId none }

def unbind (g : Registry) (r : ClientRef) : Registry :=
  let g' := (g.setEntry r fun e => { e with udpSocketAddr := none }).release
    (g.entry r).udpSocketAddr
  { g' with withoutUdp := keep g'.withoutUdp (g.entry r).sessionId r }

def add (g : Registry) (session : UInt32) : Registry :=
  { g with
    entry := Function.update g.entry g.next ⟨session, 0, false, false, false, none⟩
    next := g.next + 1
    clients := keep g.clients session g.next
    withoutUdp := keep g.withoutUdp session g.next
    size := g.size + 1
    active := g.active + 1 }

noncomputable def drop (g : Registry) (session : UInt32) : Registry :=
  match g.clients session with
  | none => g
  | some r =>
      let g' := (g.setEntry r fun e => { e with cancelled := true, udpSocketAddr := none }).release
        (g.entry r).udpSocketAddr
      { g' with
        clients := Function.update g.clients session none
        withoutUdp := Function.update g.withoutUdp session none
        size := g.size - 1
        active := g.active - 1 }.leave session (g.entry r).channelId

inductive Op where
  | Add (session : UInt32)
  | SetMute (r : ClientRef) (mute : Bool)
  | SetDeaf (r : ClientRef) (deaf : Bool)
  -- the client that joins or makes a channel may have been disconnected
  | Join (r : ClientRef) (k : UInt32) (alive : Bool)
  | FailJoin (r : ClientRef) (k : UInt32)
  | Create (r : ClientRef) (k : UInt32) (alive : Bool)
  | Listen (r : ClientRef) (k : UInt32)
  | Unlisten (r : ClientRef) (k : UInt32)
  | Bind (r : ClientRef) (addr : SocketAddr)
  | Unbind (r : ClientRef)
  | Drop (session : UInt32)

-- When an operation can happen.
def Op.Guard (g : Registry) : Op → Prop
  | .Add session => g.clients session = none ∧ g.active.toNat < MAX_CLIENTS
  | .SetMute _ _ | .SetDeaf _ _ => True
  | .Join r k alive => r < g.next ∧ (alive = true → g.Running r) ∧ g.channels k ≠ none
  | .FailJoin r k => r < g.next ∧ g.channels k = none
  | .Create r _ alive => r < g.next ∧ (alive = true → g.Running r)
  | .Listen r _ | .Unlisten r _ => r < g.next
  | .Bind r addr => (∃ session, g.withoutUdp session = some r) ∧ g.bySocket addr = none
  | .Unbind r => g.Connected r ∨ ∃ addr, g.bySocket addr = some r
  | .Drop session => g.Populated session

noncomputable def Op.apply (g : Registry) : Op → Registry
  | .Add session => g.add session
  | .SetMute r mute => g.setEntry r fun e => { e with mute }
  | .SetDeaf r deaf => g.setEntry r fun e => { e with deaf }
  | .Join r k _ => g.join r k
  -- the client is recorded in a channel that is not there
  | .FailJoin r k => g.setEntry r fun e => { e with channelId := k }
  | .Create r k _ => (g.create k).join r k
  | .Listen r k => g.setRoom k fun room =>
      some { room with listeners := keep room.listeners (g.entry r).sessionId r }
  | .Unlisten r k => g.setRoom k fun room =>
      some { room with listeners := Function.update room.listeners (g.entry r).sessionId none }
  | .Bind r addr => g.bind r addr
  | .Unbind r => g.unbind r
  | .Drop session => g.drop session

section

variable (g : Registry) (r : ClientRef) (k : UInt32) (f : Entry → Entry) (h : Room → Option Room)

@[simp] theorem setEntry_entry_self : (g.setEntry r f).entry r = f (g.entry r) :=
  Function.update_self ..

@[simp] theorem setEntry_next : (g.setEntry r f).next = g.next := rfl
@[simp] theorem setEntry_clients : (g.setEntry r f).clients = g.clients := rfl
@[simp] theorem setEntry_bySocket : (g.setEntry r f).bySocket = g.bySocket := rfl
@[simp] theorem setEntry_channels : (g.setEntry r f).channels = g.channels := rfl

@[simp] theorem setRoom_channels_self : (g.setRoom k h).channels k = (g.channels k).bind h :=
  Function.update_self ..

@[simp] theorem setRoom_entry : (g.setRoom k h).entry = g.entry := rfl
@[simp] theorem setRoom_next : (g.setRoom k h).next = g.next := rfl
@[simp] theorem setRoom_clients : (g.setRoom k h).clients = g.clients := rfl

end

variable {g : Registry} {k : UInt32}

theorem setEntry_entry_ne {r q : ClientRef} (f : Entry → Entry) (h : q ≠ r) :
    (g.setEntry r f).entry q = g.entry q := Function.update_of_ne h _ _

-- What a write does not touch in an entry, it touches in none.
theorem setEntry_field {α : Type} (φ : Entry → α) {r : ClientRef} {f : Entry → Entry}
    (h : ∀ e, φ (f e) = φ e) (q : ClientRef) : φ ((g.setEntry r f).entry q) = φ (g.entry q) := by
  by_cases hq : q = r
  · subst hq
    rw [setEntry_entry_self, h]
  · rw [setEntry_entry_ne f hq]

theorem setEntry_setEntry (g : Registry) (r : ClientRef) (f f' : Entry → Entry) :
    (g.setEntry r f).setEntry r f' = g.setEntry r fun e => f' (f e) := by
  simp only [setEntry, Function.update_self, Function.update_idem]

theorem setRoom_channels_ne {k' : UInt32} (f : Room → Option Room) (h : k' ≠ k) :
    (g.setRoom k f).channels k' = g.channels k' := Function.update_of_ne h _ _

theorem setRoom_setRoom (g : Registry) (k : UInt32) (f f' : Room → Option Room) :
    (g.setRoom k f).setRoom k f' = g.setRoom k fun room => (f room).bind f' := by
  simp only [setRoom, Function.update_self, Function.update_idem, Option.bind_assoc]

theorem setRoom_congr {f f' : Room → Option Room}
    (h : ∀ room, g.channels k = some room → f room = f' room) : g.setRoom k f = g.setRoom k f' := by
  have hbind : (g.channels k).bind f = (g.channels k).bind f' := by
    cases hroom : g.channels k with
    | none => rfl
    | some room => exact h room hroom
  rw [setRoom, setRoom, hbind]

@[simp] theorem create_channels_self (g : Registry) (k : UInt32) : (g.create k).channels k =
    some ((g.channels k).getD ⟨true, fun _ => none, fun _ => none⟩) := Function.update_self ..

theorem create_channels_ne {k' : UInt32} (h : k' ≠ k) :
    (g.create k).channels k' = g.channels k' := Function.update_of_ne h _ _

-- A join writes the client's entry and the channels.
theorem join_entry (g : Registry) (r : ClientRef) (k : UInt32) :
    (g.join r k).entry = (g.setEntry r fun e => { e with channelId := k }).entry := by
  unfold join
  split_ifs <;> rfl

theorem join_next (g : Registry) (r : ClientRef) (k : UInt32) : (g.join r k).next = g.next := by
  unfold join
  split_ifs <;> rfl

theorem Running.join {r : ClientRef} (h : g.Running r) (k : UInt32) : (g.join r k).Running r := by
  refine ⟨?_, ?_⟩
  · rw [join_next]
    exact h.1
  · rw [join_entry, setEntry_entry_self]
    exact h.2

def Step (g : Registry) (op : Op) (g' : Registry) : Prop := op.Guard g ∧ g' = op.apply g

theorem drop_next (g : Registry) (session : UInt32) : (g.drop session).next = g.next := by
  unfold drop
  split <;> rfl

-- Places are never given back.
theorem Step.next_le {op : Op} {g' : Registry} (h : g.Step op g') : g.next ≤ g'.next := by
  obtain ⟨-, rfl⟩ := h
  cases op with
  | Add session => exact Nat.le_succ _
  | SetMute r b | SetDeaf r b | FailJoin r k | Listen r k | Unlisten r k | Bind r addr | Unbind r =>
      exact Nat.le_refl _
  | Join r k _ => exact Nat.le_of_eq (join_next g r k).symm
  | Create r k _ => exact Nat.le_of_eq (join_next (g.create k) r k).symm
  | Drop session => exact Nat.le_of_eq (drop_next g session).symm

end Registry

end Mumble
