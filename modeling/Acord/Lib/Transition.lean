import Mathlib.Tactic.Common
import Mathlib.Data.List.Basic

/-! Labelled transition systems: runs from an initial state with their trace, the invariant
rule, runs restricted to steps that meet a condition, the events since the last event of a
kind, and forward simulation. -/

namespace Transition

universe u v w x

structure System (σ : Type u) (α : Type v) where
  init : σ → Prop
  step : σ → α → σ → Prop

variable {σ : Type u} {α : Type v} {τ : Type w} {β : Type x}

inductive System.Run (M : System σ α) : List α → σ → Prop
  | start {s : σ} (h : M.init s) : Run M [] s
  | next {tr : List α} {s t : σ} {a : α} (hr : Run M tr s) (hs : M.step s a t) : Run M (tr ++ [a]) t

namespace System
variable {M : System σ α} {tr : List α} {s t : σ}

theorem Run.invariant {I : σ → Prop} (h0 : ∀ s, M.init s → I s)
    (hstep : ∀ s a t, I s → M.step s a t → I t) (h : M.Run tr s) : I s := by
  induction h with
  | start h => exact h0 _ h
  | next _ hs ih => exact hstep _ _ _ ih hs

theorem Run.trace_invariant {I : List α → σ → Prop} (h0 : ∀ s, M.init s → I [] s)
    (hstep : ∀ tr s a t, I tr s → M.step s a t → I (tr ++ [a]) t) (h : M.Run tr s) : I tr s := by
  induction h with
  | start h => exact h0 _ h
  | next _ hs ih => exact hstep _ _ _ _ ih hs

theorem Run.mono {N : System σ α} (hi : ∀ s, N.init s → M.init s)
    (hs : ∀ s a t, N.step s a t → M.step s a t) (h : N.Run tr s) : M.Run tr s := by
  induction h with
  | start h => exact .start (hi _ h)
  | next _ h ih => exact ih.next (hs _ _ _ h)

/-- The runs of `M` all of whose steps meet `P`, a condition on the state before the step and
the event. -/
def guard (M : System σ α) (P : σ → α → Prop) : System σ α where
  init := M.init
  step s a t := P s a ∧ M.step s a t

theorem Run.of_guard {P : σ → α → Prop} (h : (M.guard P).Run tr s) : M.Run tr s :=
  h.mono (M := M) (N := M.guard P) (fun _ h => h) fun _ _ _ h => h.2

theorem Run.guard_mono {P Q : σ → α → Prop} (hpq : ∀ s a, P s a → Q s a)
    (h : (M.guard P).Run tr s) :
    (M.guard Q).Run tr s :=
  h.mono (M := M.guard Q) (N := M.guard P) (fun _ h => h) fun s a _ h => ⟨hpq s a h.1, h.2⟩

theorem Run.guard_of {P : σ → α → Prop} (hp : ∀ s a, P s a) (h : M.Run tr s) :
    (M.guard P).Run tr s :=
  h.mono (M := M.guard P) (N := M) (fun _ h => h) fun s a _ h => ⟨hp s a, h⟩

def after (M : System σ α) (s : σ) : System σ α where
  init t := t = s
  step := M.step

theorem Run.append {tr' : List α} (h : M.Run tr s) (h' : (M.after s).Run tr' t) :
    M.Run (tr ++ tr') t := by
  induction h' with
  | start he =>
    obtain rfl := he
    simpa using h
  | next _ hs ih => exact List.append_assoc tr _ _ ▸ ih.next hs

theorem Run.cut {tr' : List α} (h : M.Run (tr ++ tr') t) : ∃ s, M.Run tr s := by
  generalize hall : tr ++ tr' = all at h
  induction h generalizing tr' with
  | @start s h =>
    obtain ⟨rfl, _⟩ := List.append_eq_nil_iff.mp hall
    exact ⟨s, .start h⟩
  | @next all s t a hr hs ih =>
    rcases List.eq_nil_or_concat tr' with rfl | ⟨rest, b, rfl⟩
    · rw [List.append_nil] at hall
      exact ⟨t, hall ▸ hr.next hs⟩
    · rw [List.concat_eq_append, ← List.append_assoc] at hall
      exact ih (List.append_inj' hall rfl).1

/-- The budget rule: what is left of `R` drops at each step that `obs` sees and no other step
raises it, so a run has at most as many such steps. -/
theorem Run.spends {R : Nat → σ → Prop} {obs : α → Option β}
    (hseen : ∀ s a t n, R n s → M.step s a t → obs a ≠ none → ∃ m < n, R m t)
    (hother : ∀ s a t n, R n s → M.step s a t → obs a = none → R n t) {n : Nat} (h0 : R n s)
    (h : (M.after s).Run tr t) : ∃ m, R m t ∧ m + (tr.filterMap obs).length ≤ n := by
  induction h with
  | start he =>
    obtain rfl := he
    exact ⟨n, h0, Nat.le_refl n⟩
  | @next tr u t a _ hs ih =>
    obtain ⟨m, hm, hle⟩ := ih
    rw [List.filterMap_append, List.length_append]
    cases ho : obs a with
    | none => exact ⟨m, hother _ _ _ _ hm hs ho, by simpa [ho] using hle⟩
    | some b =>
      obtain ⟨k, hk, hr⟩ := hseen _ _ _ _ hm hs (by simp [ho])
      refine ⟨k, hr, ?_⟩
      simp only [List.filterMap_cons, ho, List.filterMap_nil, List.length_singleton]
      omega

/-- Where no more than `n` steps of a kind can follow one another, they lead to a state that has none
to take. -/
theorem settles {P : α → Prop} {n : Nat}
    (hbound : ∀ tr t, (M.after s).Run tr t → (∀ a ∈ tr, P a) → tr.length ≤ n) :
    ∃ tr t, (M.after s).Run tr t ∧ (∀ a ∈ tr, P a) ∧ ∀ a u, M.step t a u → ¬ P a := by
  have hgo : ∀ k, ∃ tr t, (M.after s).Run tr t ∧ (∀ a ∈ tr, P a) ∧
      ((∀ a u, M.step t a u → ¬ P a) ∨ tr.length = k) := by
    intro k
    induction k with
    | zero => exact ⟨[], s, .start rfl, nofun, .inr rfl⟩
    | succ k ih =>
      obtain ⟨tr, t, h, hall, hrest⟩ := ih
      by_cases hquiet : ∀ a u, M.step t a u → ¬ P a
      · exact ⟨tr, t, h, hall, .inl hquiet⟩
      · push Not at hquiet
        obtain ⟨a, u, hs, ha⟩ := hquiet
        have hlen := hrest.resolve_left fun hq => hq a u hs ha
        refine ⟨tr ++ [a], u, h.next hs, ?_, .inr (by rw [List.length_append, hlen]; rfl)⟩
        exact List.forall_mem_append.mpr ⟨hall, by simpa using ha⟩
  obtain ⟨tr, t, h, hall, hquiet | hlen⟩ := hgo (n + 1)
  · exact ⟨tr, t, h, hall, hquiet⟩
  · have hle := hbound tr t h hall
    omega

end System

structure LastAt (p : α → Prop) (tr pre : List α) (a : α) (mid : List α) : Prop where
  split : tr = pre ++ a :: mid
  hit : p a
  quiet : ∀ b ∈ mid, ¬ p b

theorem LastAt.snoc {p : α → Prop} {tr pre mid : List α} {a b : α}
    (h : LastAt p (tr ++ [b]) pre a mid) :
    (mid = [] ∧ b = a ∧ pre = tr) ∨ ∃ mid', mid = mid' ++ [b] ∧ LastAt p tr pre a mid' ∧ ¬ p b := by
  obtain ⟨hs, hp, hq⟩ := h
  rcases List.eq_nil_or_concat mid with rfl | ⟨mid', c, rfl⟩
  · obtain ⟨h1, h2⟩ := List.append_inj' hs rfl
    exact .inl ⟨rfl, List.head_eq_of_cons_eq h2, h1.symm⟩
  · rw [List.concat_eq_append] at hs hq ⊢
    rw [← List.cons_append, ← List.append_assoc] at hs
    obtain ⟨h1, h2⟩ := List.append_inj' hs rfl
    obtain rfl := List.head_eq_of_cons_eq h2
    exact .inr ⟨mid', rfl, ⟨h1, hp, fun b hb => hq b (List.mem_append_left _ hb)⟩,
      hq _ (List.mem_append_right _ (List.mem_singleton_self _))⟩

/-- The episode rule: what holds when an event of kind `p` has just been taken, and is kept by
every other step, holds of the events since the last event of kind `p`. -/
theorem System.Run.episode_from {M : System σ α} {p : α → Prop} {J : List α → α → List α → σ → Prop}
    (hopen : ∀ pre s a t, M.Run pre s → M.step s a t → p a → J pre a [] t)
    (hkeep : ∀ pre s a mid b t, J pre a mid s → M.step s b t → ¬ p b → J pre a (mid ++ [b]) t)
    {tr pre mid : List α} {a : α} {s : σ} (h : M.Run tr s) (hl : LastAt p tr pre a mid) :
    J pre a mid s := by
  induction h generalizing pre mid with
  | start _ => exact absurd hl.split.symm (by simp)
  | next hr hs ih =>
    rcases hl.snoc with ⟨rfl, rfl, rfl⟩ | ⟨mid', rfl, hl', hb⟩
    · exact hopen _ _ _ _ hr hs hl.hit
    · exact hkeep _ _ _ _ _ _ (ih hl') hs hb

theorem System.Run.episode {M : System σ α} {p : α → Prop} {J : α → List α → σ → Prop}
    (hopen : ∀ s a t, M.step s a t → p a → J a [] t)
    (hkeep : ∀ s a mid b t, J a mid s → M.step s b t → ¬ p b → J a (mid ++ [b]) t)
    {tr pre mid : List α} {a : α} {s : σ} (h : M.Run tr s) (hl : LastAt p tr pre a mid) :
    J a mid s :=
  h.episode_from (J := fun _ => J) (fun _ s a t _ => hopen s a t) (fun _ => hkeep) hl

/-- `A` follows an event it sees as `o` from `q` into a state satisfying `R`: by no step where it
sees nothing. -/
def System.Follows (A : System τ β) (o : Option β) (q : τ) (R : τ → Prop) : Prop :=
  match o with
  | none => R q
  | some b => ∃ q', A.step q b q' ∧ R q'

theorem System.Follows.imp {A : System τ β} {o : Option β} {q : τ} {R S : τ → Prop}
    (h : A.Follows o q R) (hrs : ∀ q, R q → S q) : A.Follows o q S := by
  cases o with
  | none => exact hrs q h
  | some b =>
    obtain ⟨q', hq, hr⟩ := h
    exact ⟨q', hq, hrs q' hr⟩

/-- A forward simulation of `C` by `A`: related states, the abstract event an event stands for
(`none` for an internal step), and the step each concrete step is matched by. -/
structure Simulation (C : System σ α) (A : System τ β) where
  rel : List α → σ → τ → Prop
  obs : α → Option β
  start : ∀ s, C.init s → ∃ q, A.init q ∧ rel [] s q
  step : ∀ tr s a t q, C.Run tr s → rel tr s q → C.step s a t →
    A.Follows (obs a) q (rel (tr ++ [a]) t)

theorem Simulation.run {C : System σ α} {A : System τ β} (S : Simulation C A) {tr : List α} {s : σ}
    (h : C.Run tr s) : ∃ q, A.Run (tr.filterMap S.obs) q ∧ S.rel tr s q := by
  induction h with
  | start h =>
    obtain ⟨q, hq, hr⟩ := S.start _ h
    exact ⟨q, .start hq, hr⟩
  | @next tr s t a hr hs ih =>
    obtain ⟨q, hq, hrel⟩ := ih
    have hstep := S.step tr s a t q hr hrel hs
    rw [List.filterMap_append]
    cases hobs : S.obs a with
    | none =>
      rw [hobs] at hstep
      exact ⟨q, by simpa [hobs] using hq, hstep⟩
    | some b =>
      rw [hobs] at hstep
      obtain ⟨q', hq', hrel'⟩ := hstep
      exact ⟨q', by simpa [hobs] using hq.next hq', hrel'⟩

end Transition
