import Acord.Lib.World

/-! Protocols for the calls of a program: systems whose events are the calls with their answers. -/

namespace RequestLoop
open Transition

variable {E : Effects} {ε α β S σ : Type} {M : System σ (Call E)}

/-- In every state of the protocol, each call `p` can come to is one that `M` takes, however it is
answered; `p` returns in a state as `R` says. -/
def Prog.Obeys (M : System σ (Call E)) : Prog E ε α → σ → (α → σ → Prop) → Prop
  | ret a, q, R => R a q
  | throw _, _, _ => True
  | crash, _, _ => False
  | call op k, q, R => ∀ r, ∃ q', M.step q ⟨op, r⟩ q' ∧ (k r).Obeys M q' R

namespace Prog.Obeys
variable {p : Prog E ε α} {q : σ} {R : α → σ → Prop}

theorem bind {f : α → Prog E ε β} {T : β → σ → Prop} (h : p.Obeys M q R)
    (hf : ∀ a q', R a q' → (f a).Obeys M q' T) : (p >>= f).Obeys M q T := by
  induction p generalizing q with
  | ret a => exact hf a q h
  | throw e => trivial
  | crash => exact h.elim
  | call op k ih =>
    intro r
    obtain ⟨q', hstep, hk⟩ := h r
    exact ⟨q', hstep, ih r hk⟩

theorem run (h : p.Obeys M q R) (W : World E S) (s : S) :
    ∃ q', (M.after q).Run (p.run W s).calls q' ∧ ∀ a, (p.run W s).outcome = .ret a → R a q' := by
  induction p generalizing q s with
  | ret a =>
    refine ⟨q, .start rfl, fun b hb => ?_⟩
    obtain rfl := Outcome.ret.inj hb
    exact h
  | throw e => exact ⟨q, .start rfl, fun _ hb => by cases hb⟩
  | crash => exact h.elim
  | call op k ih =>
    obtain ⟨q', hstep, hk⟩ := h (W.answer s op).1
    obtain ⟨q'', hrun, hret⟩ := ih (W.answer s op).1 hk (W.answer s op).2
    have hfirst : (M.after q).Run [⟨op, (W.answer s op).1⟩] q' :=
      System.Run.next (M := M.after q) (.start rfl) hstep
    rw [run_call]
    exact ⟨q'', hfirst.append hrun, hret⟩

end Prog.Obeys
end RequestLoop
