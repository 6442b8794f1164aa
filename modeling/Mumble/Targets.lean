import Mumble.Handler

/-!
What a `VoiceTarget` message is made of: channels and sessions, one after the other.
-/

namespace Mumble

open Mumble.Lib

inductive Target where
  | Channel (k : UInt32)
  | Session (k : UInt32)
  deriving DecidableEq

namespace Target

def key : Target → UInt64
  | .Channel k => keyChannel k
  | .Session k => keySession k

theorem toNat_keyChannel (k : UInt32) : (keyChannel k).toNat = k.toNat := UInt32.toNat_toUInt64 k

theorem toNat_keySession (k : UInt32) : (keySession k).toNat = 2 ^ 40 + k.toNat := by
  have hlt : k.toNat < 2 ^ 40 := Nat.lt_trans k.toNat_lt (by decide)
  have hor := Nat.two_pow_add_eq_or_of_lt hlt 1
  rw [Nat.mul_one] at hor
  rw [keySession, UInt64.toNat_or, UInt32.toNat_toUInt64, hor]
  rfl

theorem key_injective : Function.Injective key := by
  intro x y h
  have hnat := congrArg UInt64.toNat h
  cases x with
  | Channel k =>
      cases y with
      | Channel k' =>
          rw [key, key, toNat_keyChannel, toNat_keyChannel] at hnat
          rw [UInt32.toNat_inj.mp hnat]
      | Session k' =>
          rw [key, key, toNat_keyChannel, toNat_keySession] at hnat
          have hlt := k.toNat_lt
          omega
  | Session k =>
      cases y with
      | Channel k' =>
          rw [key, key, toNat_keySession, toNat_keyChannel] at hnat
          have hlt := k'.toNat_lt
          omega
      | Session k' =>
          rw [key, key, toNat_keySession, toNat_keySession] at hnat
          rw [UInt32.toNat_inj.mp (Nat.add_left_cancel hnat)]

end Target

def TargetItem.targets (item : TargetItem) : List Target :=
  item.session.map .Session ++ item.channelId.toList.map .Channel

def VoiceTargetMessage.registers (message : VoiceTargetMessage) : List Target :=
  message.targets.flatMap TargetItem.targets

def VoiceTarget.add (slot : VoiceTarget) : Target → VoiceTarget
  | .Session k => { slot with sessions := HashIndex.insertNew k () slot.sessions }
  | .Channel k => { slot with channels := HashIndex.insertNew k () slot.channels }

namespace ServerState

-- The two loops of `fillTarget`.

def fillSession (acc : VoiceTarget × List UInt64) (session : UInt32) : VoiceTarget × List UInt64 :=
  ({ acc.1 with sessions := HashIndex.insertNew session () acc.1.sessions },
    acc.2 ++ [keySession session])

def fillItem (acc : VoiceTarget × List UInt64) (item : TargetItem) : VoiceTarget × List UInt64 :=
  let acc := item.session.foldl fillSession acc
  match item.channelId with
  | some channelId =>
      ({ acc.1 with channels := HashIndex.insertNew channelId () acc.1.channels },
        acc.2 ++ [keyChannel channelId])
  | none => acc

theorem foldl_fillSession (sessions : List UInt32) (slot : VoiceTarget) (keys : List UInt64) :
    sessions.foldl fillSession (slot, keys) =
      ((sessions.map Target.Session).foldl VoiceTarget.add slot,
        keys ++ (sessions.map Target.Session).map Target.key) := by
  induction sessions generalizing slot keys with
  | nil => simp
  | cons session sessions ih =>
      rw [List.foldl_cons, fillSession, ih]
      simp [VoiceTarget.add, Target.key]

theorem fillItem_eq (item : TargetItem) (slot : VoiceTarget) (keys : List UInt64) :
    fillItem (slot, keys) item =
      (item.targets.foldl VoiceTarget.add slot, keys ++ item.targets.map Target.key) := by
  unfold fillItem TargetItem.targets
  rw [foldl_fillSession]
  cases item.channelId with
  | none => simp
  | some channelId => simp [VoiceTarget.add, Target.key]

-- The slot is filled with one target after the other, and their keys are collected.
theorem fillTarget_eq (items : List TargetItem) :
    fillTarget items =
      ((items.flatMap TargetItem.targets).foldl VoiceTarget.add ⟨∅, ∅⟩,
        (items.flatMap TargetItem.targets).map Target.key) := by
  have hfill (slot : VoiceTarget) (keys : List UInt64) : items.foldl fillItem (slot, keys) =
      ((items.flatMap TargetItem.targets).foldl VoiceTarget.add slot,
        keys ++ (items.flatMap TargetItem.targets).map Target.key) := by
    induction items generalizing slot keys with
    | nil => simp
    | cons item items ih =>
        rw [List.foldl_cons, fillItem_eq, ih]
        simp
  exact hfill ⟨∅, ∅⟩ []

end ServerState

end Mumble
