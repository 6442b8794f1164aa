import Mathlib.Data.List.Basic

namespace Mumble.Lib

-- The ways a computation over byte buffers can stop without returning.
inductive Panic where
  | SplitTo
  | SplitAt
  | Advance
  | Index
  | CopyFromSlice
  | TryIntoUnwrap
  | Assert
  | Unreachable
  deriving DecidableEq, Repr

-- A computation that returns a value or reaches a panic site. An error value
-- that the computation hands to its caller is part of the returned value.
abbrev Exec (α : Type) := Except Panic α

namespace Exec

variable {α β : Type}

-- The computation returns.
def Returns (x : Exec α) : Prop := ∃ a, x = .ok a

@[simp] theorem returns_ok (a : α) : Returns (.ok a : Exec α) := ⟨a, rfl⟩

@[simp] theorem not_returns_error (p : Panic) : ¬Returns (.error p : Exec α) := by
  rintro ⟨a, h⟩
  cases h

@[simp] theorem ok_bind (a : α) (f : α → Exec β) : ((.ok a : Exec α) >>= f) = f a := rfl

@[simp] theorem error_bind (p : Panic) (f : α → Exec β) :
    ((.error p : Exec α) >>= f) = .error p := rfl

@[simp] theorem pure_eq_ok (a : α) : (pure a : Exec α) = .ok a := rfl

theorem bind_eq_ok {x : Exec α} {f : α → Exec β} {b : β} :
    (x >>= f) = .ok b ↔ ∃ a, x = .ok a ∧ f a = .ok b := by
  cases x with
  | error p => simp
  | ok a => simp

theorem Returns.bind {x : Exec α} {f : α → Exec β} (hx : Returns x)
    (hf : ∀ a, Returns (f a)) : Returns (x >>= f) := by
  obtain ⟨a, rfl⟩ := hx
  exact hf a

end Exec

-- Byte buffers. Each operation states the bound whose violation panics.

def splitTo (buf : List UInt8) (n : Nat) : Exec (List UInt8 × List UInt8) :=
  if n ≤ buf.length then .ok (buf.take n, buf.drop n) else .error .SplitTo

def splitAt (buf : List UInt8) (n : Nat) : Exec (List UInt8 × List UInt8) :=
  if n ≤ buf.length then .ok (buf.take n, buf.drop n) else .error .SplitAt

def advance (buf : List UInt8) (n : Nat) : Exec (List UInt8) :=
  if n ≤ buf.length then .ok (buf.drop n) else .error .Advance

def index (buf : List UInt8) (i : Nat) : Exec UInt8 :=
  match buf[i]? with
  | some b => .ok b
  | none => .error .Index

-- `dst[lo..hi].copy_from_slice(src)`.
def copyFromSlice (dst : List UInt8) (lo hi : Nat) (src : List UInt8) : Exec (List UInt8) :=
  if lo ≤ hi ∧ hi ≤ dst.length then
    if src.length = hi - lo then .ok (dst.take lo ++ src ++ dst.drop hi) else .error .CopyFromSlice
  else .error .Index

-- `let x: [u8; n] = slice.try_into().unwrap()`.
def tryInto (buf : List UInt8) (n : Nat) : Exec (List UInt8) :=
  if buf.length = n then .ok buf else .error .TryIntoUnwrap

def assert (p : Prop) [Decidable p] : Exec Unit :=
  if p then .ok () else .error .Assert

-- `BytesMut::resize`.
def resize (buf : List UInt8) (n : Nat) (b : UInt8) : List UInt8 :=
  buf.take n ++ List.replicate (n - buf.length) b

theorem splitTo_eq {buf : List UInt8} {n : Nat} (h : n ≤ buf.length) :
    splitTo buf n = .ok (buf.take n, buf.drop n) := if_pos h

theorem splitAt_eq {buf : List UInt8} {n : Nat} (h : n ≤ buf.length) :
    splitAt buf n = .ok (buf.take n, buf.drop n) := if_pos h

theorem advance_eq {buf : List UInt8} {n : Nat} (h : n ≤ buf.length) :
    advance buf n = .ok (buf.drop n) := if_pos h

theorem tryInto_eq {buf : List UInt8} {n : Nat} (h : buf.length = n) :
    tryInto buf n = .ok buf := if_pos h

theorem assert_eq {p : Prop} [Decidable p] (h : p) : assert p = .ok () := if_pos h

theorem copyFromSlice_eq {dst src : List UInt8} {lo hi : Nat} (hl : lo ≤ hi)
    (hh : hi ≤ dst.length) (hs : src.length = hi - lo) :
    copyFromSlice dst lo hi src = .ok (dst.take lo ++ src ++ dst.drop hi) := by
  rw [copyFromSlice, if_pos ⟨hl, hh⟩, if_pos hs]

end Mumble.Lib
