import Acord.Lib.Transition

/-! First-in first-out pipes: what was put in and what came out, which is a prefix of it; and two
of them side by side. -/

namespace Pipes
open Transition

structure Pipe (α : Type*) where
  pushed : List α
  popped : List α
  fifo : popped <+: pushed

inductive PipeEvent (α : Type*)
  | push (a : α)
  | pop (a : α)

variable {α : Type*}

namespace Pipe

def push (p : Pipe α) (a : α) : Pipe α :=
  ⟨p.pushed ++ [a], p.popped, p.fifo.trans (List.prefix_append _ _)⟩

def pop (p : Pipe α) (a : α) (due : p.popped ++ [a] <+: p.pushed) : Pipe α :=
  ⟨p.pushed, p.popped ++ [a], due⟩

inductive Step : Pipe α → PipeEvent α → Pipe α → Prop
  | push (p : Pipe α) (a : α) : Step p (.push a) (p.push a)
  | pop (p : Pipe α) {a : α} (due : p.popped ++ [a] <+: p.pushed) : Step p (.pop a) (p.pop a due)

end Pipe

def pair (α : Type*) : System (Pipe α × Pipe α) (PipeEvent α ⊕ PipeEvent α) where
  init q := q.1.popped = [] ∧ q.2.popped = []
  step q e q' :=
    match e with
    | .inl e => Pipe.Step q.1 e q'.1 ∧ q'.2 = q.2
    | .inr e => Pipe.Step q.2 e q'.2 ∧ q'.1 = q.1

theorem pair_swap {o : Option (PipeEvent α ⊕ PipeEvent α)} {q : Pipe α × Pipe α}
    {R : Pipe α × Pipe α → Prop} (h : (pair α).Follows o q.swap fun q' => R q'.swap) :
    (pair α).Follows (o.map Sum.swap) q R := by
  rcases o with _ | e | e
  · exact h
  · obtain ⟨q', ⟨hs, he⟩, hr⟩ := h
    exact ⟨q'.swap, ⟨hs, he⟩, hr⟩
  · obtain ⟨q', ⟨hs, he⟩, hr⟩ := h
    exact ⟨q'.swap, ⟨hs, he⟩, hr⟩

end Pipes
