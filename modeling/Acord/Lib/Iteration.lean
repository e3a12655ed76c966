import Mathlib.Data.Set.Finite.Basic
import Mathlib.Data.Fintype.Card
import Mathlib.Data.Finite.Sum
import Mathlib.Tactic.Common

/-! Loops: a body that continues from a new state or ends with a result, iterated. -/

namespace Iteration

variable {α β γ δ : Type*}

def iter (f : α → α ⊕ β) : Nat → α → α ⊕ β
  | 0, a => .inl a
  | n + 1, a =>
    match f a with
    | .inl b => iter f n b
    | .inr r => .inr r

def Ends (f : α → α ⊕ β) (a : α) : Prop := ∃ n r, iter f n a = .inr r

variable {f : α → α ⊕ β} {a b : α} {r : β} {m n : Nat}

theorem iter_succ_inl (h : f a = .inl b) : iter f (n + 1) a = iter f n b := by
  simp only [iter, h]

theorem iter_succ_inr (h : f a = .inr r) : iter f (n + 1) a = .inr r := by
  simp only [iter, h]

theorem iter_add (h : iter f m a = .inl b) : iter f (m + n) a = iter f n b := by
  induction m generalizing a with
  | zero =>
    obtain rfl := Sum.inl.inj h
    rw [Nat.zero_add]
  | succ m ih =>
    rw [Nat.add_right_comm]
    cases hf : f a with
    | inl c =>
      rw [iter_succ_inl hf] at h ⊢
      exact ih h
    | inr r =>
      rw [iter_succ_inr hf] at h
      cases h

theorem iter_ended (h : iter f m a = .inr r) (n : Nat) : iter f (m + n) a = .inr r := by
  induction m generalizing a with
  | zero => cases h
  | succ m ih =>
    rw [Nat.add_right_comm]
    cases hf : f a with
    | inl c =>
      rw [iter_succ_inl hf] at h ⊢
      exact ih h
    | inr r' =>
      rw [iter_succ_inr hf] at h ⊢
      exact h

theorem iter_succ (h : iter f n a = .inl b) : iter f (n + 1) a = f b := by
  rw [iter_add h]
  cases hf : f b with
  | inl c => rw [iter_succ_inl hf, iter]
  | inr r => exact iter_succ_inr hf

theorem iter_before (h : iter f n a = .inl b) (hm : m ≤ n) : ∃ c, iter f m a = .inl c := by
  cases hc : iter f m a with
  | inl c => exact ⟨c, rfl⟩
  | inr r =>
    obtain ⟨k, rfl⟩ := Nat.exists_eq_add_of_le hm
    rw [iter_ended hc] at h
    cases h

theorem ends_iff_stops : Ends f a ↔ ∃ n b, iter f n a = .inl b ∧ ¬ ∃ c, f b = .inl c := by
  constructor
  · rintro ⟨n, r, hr⟩
    induction n with
    | zero => cases hr
    | succ n ih =>
      cases hn : iter f n a with
      | inl b =>
        rw [iter_succ hn] at hr
        refine ⟨n, b, hn, ?_⟩
        rintro ⟨c, hc⟩
        rw [hr] at hc
        cases hc
      | inr r' =>
        have hr' := iter_ended hn 1
        rw [hr] at hr'
        exact ih (hn.trans hr'.symm)
  · rintro ⟨n, b, hn, hb⟩
    cases hf : f b with
    | inl c => exact absurd ⟨c, hf⟩ hb
    | inr r => exact ⟨n + 1, r, (iter_succ hn).trans hf⟩

theorem iter_map {π : α → γ} {g : γ → γ ⊕ β} (h : ∀ a, Sum.map π id (f a) = g (π a)) (n : Nat)
    (a : α) : Sum.map π id (iter f n a) = iter g n (π a) := by
  induction n generalizing a with
  | zero => rfl
  | succ n ih =>
    have ha := h a
    cases hf : f a with
    | inl b =>
      rw [hf] at ha
      rw [iter_succ_inl hf, iter_succ_inl ha.symm]
      exact ih b
    | inr r =>
      rw [hf] at ha
      rw [iter_succ_inr hf, iter_succ_inr ha.symm]
      rfl

theorem ends_map {π : α → γ} {g : γ → γ ⊕ β} (h : ∀ a, Sum.map π id (f a) = g (π a)) :
    Ends f a ↔ Ends g (π a) := by
  constructor
  · rintro ⟨n, r, hr⟩
    refine ⟨n, r, ?_⟩
    rw [← iter_map h, hr]
    rfl
  · rintro ⟨n, r, hr⟩
    rw [← iter_map h] at hr
    cases hf : iter f n a with
    | inl b =>
      rw [hf] at hr
      cases hr
    | inr r' => exact ⟨n, r', hf⟩

theorem not_ends_of_repeat (hm : iter f m a = .inl b) (hn : iter f n a = .inl b) (h : m < n) :
    ¬ Ends f a := by
  obtain ⟨k, rfl⟩ := Nat.exists_eq_add_of_lt h
  have hback : iter f (k + 1) b = .inl b := by
    rw [← hn, Nat.add_assoc, iter_add hm]
  have hlap : ∀ i, iter f (i * (k + 1)) b = .inl b := by
    intro i
    induction i with
    | zero => rw [Nat.zero_mul, iter]
    | succ i ih => rw [Nat.succ_mul, iter_add ih, hback]
  rintro ⟨i, r, hr⟩
  have hlong := iter_add (n := i * (k + 1)) hm
  rw [hlap] at hlong
  have hle : i ≤ m + i * (k + 1) := by
    have hmul : i * 1 ≤ i * (k + 1) := Nat.mul_le_mul_left i (by omega)
    omega
  obtain ⟨c, hc⟩ := iter_before hlong hle
  rw [hr] at hc
  cases hc

theorem ends_iff_no_repeat (hfin : {b | ∃ c, f b = .inl c}.Finite) :
    Ends f a ↔ ∀ i j b, iter f i a = .inl b → iter f j a = .inl b → i = j := by
  constructor
  · intro h i j b hi hj
    by_contra hne
    rcases Nat.lt_or_gt_of_ne hne with hlt | hlt
    · exact not_ends_of_repeat hi hj hlt h
    · exact not_ends_of_repeat hj hi hlt h
  · intro hinj
    by_contra hno
    have hrun : ∀ n, ∃ b, iter f n a = .inl b := by
      intro n
      cases hn : iter f n a with
      | inl b => exact ⟨b, rfl⟩
      | inr r => exact absurd ⟨n, r, hn⟩ hno
    choose g hg using hrun
    have hmem : ∀ n, g n ∈ {b | ∃ c, f b = .inl c} := fun n =>
      ⟨g (n + 1), (iter_succ (hg n)).symm.trans (hg (n + 1))⟩
    have hg_inj : Function.Injective g := fun i j hij => hinj i j (g i) (hg i) (hij ▸ hg j)
    exact Set.infinite_of_injective_forall_mem hg_inj hmem hfin

end Iteration
