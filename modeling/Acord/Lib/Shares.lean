import Mathlib.Algebra.BigOperators.Group.Finset.Basic
import Mathlib.Algebra.Order.BigOperators.Group.Finset

/-! Sums over many parties: what one of them gains or spends, and a count split among them. -/

namespace Shares
open Finset

variable {κ α : Type*} [DecidableEq κ] {S : Finset κ} {f g : κ → Nat} {i : κ} {x y : Nat}

theorem sum_step (hi : i ∈ S) (hother : ∀ j, j ≠ i → g j = f j) (hmine : g i + x ≤ f i + y) :
    ∑ j ∈ S, g j + x ≤ ∑ j ∈ S, f j + y := by
  have hrest : ∑ j ∈ S.erase i, g j = ∑ j ∈ S.erase i, f j :=
    sum_congr rfl fun j hj => hother j (ne_of_mem_erase hj)
  have hg := add_sum_erase S g hi
  have hf := add_sum_erase S f hi
  omega

omit [DecidableEq κ] in
theorem countP_le {p : α → Bool} {P : κ → α → Bool} {tr : List α}
    (h : ∀ a ∈ tr, p a = true → ∃ k ∈ S, P k a = true) :
    tr.countP p ≤ ∑ k ∈ S, tr.countP (P k) := by
  induction tr with
  | nil => exact Nat.zero_le _
  | cons a tr ih =>
    have htail := ih fun b hb => h b (List.mem_cons_of_mem a hb)
    simp only [List.countP_cons, sum_add_distrib]
    apply Nat.add_le_add htail
    by_cases hp : p a = true
    · obtain ⟨k, hk, hP⟩ := h a List.mem_cons_self hp
      have hle := single_le_sum (f := fun k => if P k a = true then 1 else 0)
        (fun _ _ => Nat.zero_le _) hk
      rw [if_pos hp]
      simpa [hP] using hle
    · rw [if_neg hp]
      exact Nat.zero_le _

end Shares
