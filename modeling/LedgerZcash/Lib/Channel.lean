import Mathlib.Data.List.Basic

/-!
# Channels

An unbounded channel of many values and a channel of one, as their two ends see them: a
send is kept in order or, once the receiver has closed, dropped; a receive waits, or is
answered.  Nothing is lost between the ends and nothing is reordered.
-/

namespace LedgerZcash.Channel

universe u

/-- The answer of a future that is polled. -/
inductive Poll (α : Type u) where
  | pending
  | ready (a : α)

/-! ## Many values -/

/-- An unbounded channel with one kind of sender. -/
structure Mpsc (α : Type u) where
  /-- What was sent and not yet received, oldest first. -/
  buffer : List α
  /-- The receiver takes no more sends. -/
  closed : Bool
  /-- Some sender is left. -/
  hasSender : Bool

namespace Mpsc

variable {α : Type u}

def new : Mpsc α where
  buffer := []
  closed := false
  hasSender := true

/-- A send to a closed receiver fails, and its value is dropped. -/
def send (c : Mpsc α) (a : α) : Mpsc α :=
  if c.closed then c else { c with buffer := c.buffer ++ [a] }

def dropSender (c : Mpsc α) : Mpsc α := { c with hasSender := false }

def close (c : Mpsc α) : Mpsc α := { c with closed := true }

/-- The oldest value; nothing once no more can come. -/
def recv (c : Mpsc α) : Poll (Option α × Mpsc α) :=
  match c.buffer with
  | a :: rest => .ready (some a, { c with buffer := rest })
  | [] => if c.closed ∨ c.hasSender = false then .ready (none, c) else .pending

variable {c c' : Mpsc α} {a : α}

theorem recv_eq_some : c.recv = .ready (some a, c') ↔
    c.buffer = a :: c'.buffer ∧ c'.closed = c.closed ∧ c'.hasSender = c.hasSender := by
  obtain ⟨buffer, closed, hasSender⟩ := c
  obtain ⟨buffer', closed', hasSender'⟩ := c'
  cases buffer with
  | nil =>
      show (if _ then _ else _) = _ ↔ _
      split <;> simp
  | cons b rest =>
      simp only [recv, Poll.ready.injEq, Prod.mk.injEq, Option.some.injEq, Mpsc.mk.injEq,
        List.cons.injEq]
      constructor
      · rintro ⟨rfl, rfl, rfl, rfl⟩
        exact ⟨⟨rfl, rfl⟩, rfl, rfl⟩
      · rintro ⟨⟨rfl, rfl⟩, rfl, rfl⟩
        exact ⟨rfl, rfl, rfl, rfl⟩

/-- Nothing is answered only when nothing is left and nothing can come. -/
theorem recv_eq_none : c.recv = .ready (none, c') ↔
    c' = c ∧ c.buffer = [] ∧ (c.closed = true ∨ c.hasSender = false) := by
  obtain ⟨buffer, closed, hasSender⟩ := c
  cases buffer with
  | nil =>
      show (if _ then _ else _) = _ ↔ _
      split
      · rename_i h
        simp only [Poll.ready.injEq, Prod.mk.injEq, true_and]
        exact ⟨fun heq ↦ ⟨heq.symm, h⟩, fun heq ↦ heq.1.symm⟩
      · rename_i h
        exact ⟨fun heq ↦ (nomatch heq), fun heq ↦ absurd heq.2.2 h⟩
  | cons b rest => simp [recv]

end Mpsc

/-! ## One value -/

/-- A channel for a single value. -/
structure Oneshot (α : Type u) where
  /-- What was sent and not yet received. -/
  value : Option α
  hasSender : Bool

namespace Oneshot

variable {α : Type u}

def new : Oneshot α where
  value := none
  hasSender := true

/-- Sending uses the sender up. -/
def send (_ : Oneshot α) (a : α) : Oneshot α where
  value := some a
  hasSender := false

def dropSender (c : Oneshot α) : Oneshot α := { c with hasSender := false }

/-- The value; nothing when the sender was dropped without one. -/
def recv (c : Oneshot α) : Poll (Option α) :=
  match c.value with
  | some a => .ready (some a)
  | none => if c.hasSender then .pending else .ready none

end Oneshot

end LedgerZcash.Channel
