import Mathlib.Tactic.Common
import Mathlib.Tactic.Simps.Basic
import Mathlib.Data.List.Basic

/-! Bounded first-in first-out channels that can be closed, keep the wait callbacks given to
them by blocked operations, and carry the histories of what was written and read. -/

namespace Channels

inductive ReadResult (α : Type*)
  | success (a : α)
  | blocked
  | closed

inductive WriteResult
  | success
  | blocked
  | closed
  deriving DecidableEq

/-- A channel of capacity `cap` holding `buf`. `readWaits` and `writeWaits` count the wait
callbacks registered by blocked reads and writes; `pushed` and `popped` are everything ever
accepted and handed out. -/
structure Channel (α : Type*) where
  cap : Nat
  buf : List α
  closed : Bool
  readWaits : Nat
  writeWaits : Nat
  pushed : List α
  popped : List α
  ledger : pushed = popped ++ buf

namespace Channel
variable {α : Type*}

@[simps] def create (cap : Nat) : Channel α := ⟨cap, [], false, 0, 0, [], [], rfl⟩

def full (c : Channel α) : Prop := c.cap ≤ c.buf.length

instance (c : Channel α) : Decidable c.full := inferInstanceAs (Decidable (_ ≤ _))

@[simps] def push (c : Channel α) (a : α) : Channel α :=
  { c with
    buf := c.buf ++ [a]
    pushed := c.pushed ++ [a]
    ledger := by rw [c.ledger, List.append_assoc] }

@[simps] def pop (c : Channel α) (a : α) (rest : List α) (h : c.buf = a :: rest) : Channel α :=
  { c with
    buf := rest
    popped := c.popped ++ [a]
    ledger := by rw [c.ledger, h, List.append_assoc, List.singleton_append] }

@[simps] def close (c : Channel α) : Channel α := { c with closed := true }

@[simps] def awaitWrite (c : Channel α) : Channel α := { c with writeWaits := c.writeWaits + 1 }

@[simps] def awaitRead (c : Channel α) : Channel α := { c with readWaits := c.readWaits + 1 }

@[simps] def fireWrite (c : Channel α) : Channel α := { c with writeWaits := c.writeWaits - 1 }

@[simps] def fireRead (c : Channel α) : Channel α := { c with readWaits := c.readWaits - 1 }

def write (c : Channel α) (a : α) : WriteResult × Channel α :=
  -- a write fails on a closed channel and blocks on a full one, which then keeps the callback
  if c.closed then (.closed, c)
  else if c.full then (.blocked, c.awaitWrite)
  else (.success, c.push a)

def read (c : Channel α) : ReadResult α × Channel α :=
  -- a read takes the oldest element, also of a closed channel; on an empty channel it fails when
  -- the channel is closed and blocks otherwise
  match h : c.buf with
  | a :: rest => (.success a, c.pop a rest h)
  | [] => if c.closed then (.closed, c) else (.blocked, c.awaitRead)

def writeReady (c : Channel α) : Prop := 0 < c.writeWaits ∧ (c.closed = true ∨ ¬ c.full)

def readReady (c : Channel α) : Prop := 0 < c.readWaits ∧ (c.closed = true ∨ c.buf ≠ [])

theorem popped_prefix (c : Channel α) : c.popped <+: c.pushed := ⟨c.buf, c.ledger.symm⟩

theorem popped_eq_pushed {c : Channel α} (h : c.buf = []) : c.popped = c.pushed := by
  rw [c.ledger, h, List.append_nil]

theorem roomy {c : Channel α} (hcap : 0 < c.cap) (hb : c.buf = []) : ¬ c.full := by
  intro hfull
  have hle : c.cap ≤ c.buf.length := hfull
  rw [hb, List.length_nil] at hle
  omega

theorem write_cases (c : Channel α) (a : α) :
    (c.closed = true ∧ c.write a = (.closed, c)) ∨
    (c.closed = false ∧ c.full ∧ c.write a = (.blocked, c.awaitWrite)) ∨
    (c.closed = false ∧ ¬ c.full ∧ c.write a = (.success, c.push a)) := by
  unfold write
  cases hc : c.closed with
  | true => exact .inl ⟨rfl, rfl⟩
  | false =>
    by_cases hf : c.full
    · exact .inr (.inl ⟨rfl, hf, by simp [hf]⟩)
    · exact .inr (.inr ⟨rfl, hf, by simp [hf]⟩)

theorem read_cases (c : Channel α) :
    (∃ a rest, ∃ h : c.buf = a :: rest, c.read = (.success a, c.pop a rest h)) ∨
    (c.buf = [] ∧ c.closed = true ∧ c.read = (.closed, c)) ∨
    (c.buf = [] ∧ c.closed = false ∧ c.read = (.blocked, c.awaitRead)) := by
  unfold read
  split
  next a rest h => exact .inl ⟨a, rest, h, rfl⟩
  next h =>
    cases hc : c.closed with
    | true => exact .inr (.inl ⟨h, rfl, rfl⟩)
    | false => exact .inr (.inr ⟨h, rfl, rfl⟩)

end Channel
end Channels
