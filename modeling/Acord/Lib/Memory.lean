import Mathlib.Logic.Function.Basic
import Mathlib.Tactic.Common

/-! A flat memory, with ranges of it read and written element by element. -/

namespace Memory

variable {β : Type*}

def read (m : Nat → β) (a n : Nat) : List β := (List.range n).map fun i => m (a + i)

def write (m : Nat → β) (a : Nat) : List β → Nat → β
  | [] => m
  | b :: bs => write (Function.update m a b) (a + 1) bs

variable {a x : Nat} {b : β} {bs : List β}

@[simp] theorem length_read (m : Nat → β) (a n : Nat) : (read m a n).length = n := by
  simp [read]

theorem write_outside (m : Nat → β) (h : x < a ∨ a + bs.length ≤ x) : write m a bs x = m x := by
  induction bs generalizing m a with
  | nil => rfl
  | cons b bs ih =>
    rw [List.length_cons] at h
    have hne : x ≠ a := by omega
    have htail : x < a + 1 ∨ a + 1 + bs.length ≤ x := by omega
    rw [write, ih _ htail]
    exact Function.update_of_ne hne _ _

theorem write_head (m : Nat → β) : write m a (b :: bs) a = b := by
  have hout : a < a + 1 ∨ a + 1 + bs.length ≤ a := .inl (Nat.lt_succ_self a)
  rw [write, write_outside _ hout]
  exact Function.update_self _ _ _

theorem read_succ (m : Nat → β) (a n : Nat) : read m a (n + 1) = m a :: read m (a + 1) n := by
  unfold read
  rw [List.range_succ_eq_map, List.map_cons, List.map_map, Nat.add_zero]
  congr 1
  apply List.map_congr_left
  intro i _
  show m (a + (i + 1)) = m (a + 1 + i)
  rw [Nat.add_assoc, Nat.add_comm 1 i]

theorem read_write (m : Nat → β) (a : Nat) (bs : List β) :
    read (write m a bs) a bs.length = bs := by
  induction bs generalizing m a with
  | nil => rfl
  | cons b bs ih =>
    rw [List.length_cons, read_succ, write_head]
    exact congrArg (b :: ·) (ih _ (a + 1))

end Memory
