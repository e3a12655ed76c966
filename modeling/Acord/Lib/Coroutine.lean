import Acord.Lib.World

/-! Coroutines: programs over effects that run in a host up to the next call it suspends them at,
or to their end. -/

namespace RequestLoop

inductive Handled (R S : Type)
  | answered (r : R) (s : S)
  | suspended (s : S)
  | undefined

inductive Stop (E : Effects) (ε α : Type)
  | suspended (op : E.Op) (k : E.Res op → Prog E ε α)
  | ended (o : Outcome ε α)

structure Host (E : Effects) (S : Type) where
  handle : S → (op : E.Op) → Handled (E.Res op) S

namespace Prog
variable {E : Effects} {ε α β S : Type} (H : Host E S)

def advance : Prog E ε α → S → Stop E ε α × S
  | ret a, s => (.ended (.ret a), s)
  | throw e, s => (.ended (.throw e), s)
  | crash, s => (.ended .crash, s)
  | call op k, s =>
    match H.handle s op with
    | .answered r s => (k r).advance s
    | .suspended s => (.suspended op k, s)
    | .undefined => (.ended .crash, s)

variable {H} {op : E.Op} {k : E.Res op → Prog E ε α} {s t : S}

theorem advance_answered {r : E.Res op} (h : H.handle s op = .answered r t) :
    (call op k).advance H s = (k r).advance H t := by
  simp only [advance, h]

theorem advance_suspended (h : H.handle s op = .suspended t) :
    (call op k).advance H s = (.suspended op k, t) := by
  simp only [advance, h]

theorem advance_bind {p : Prog E ε α} {f : α → Prog E ε β} {a : α}
    (h : p.advance H s = (.ended (.ret a), t)) :
    (p >>= f).advance H s = (f a).advance H t := by
  induction p generalizing s with
  | ret b =>
    obtain ⟨hout, rfl⟩ := Prod.mk.inj h
    obtain rfl := Outcome.ret.inj (Stop.ended.inj hout)
    rfl
  | throw e => cases (Prod.mk.inj h).1
  | crash => cases (Prod.mk.inj h).1
  | call op k ih =>
    cases hop : H.handle s op with
    | answered r s' =>
      rw [advance_answered hop] at h
      rw [call_bind, advance_answered hop]
      exact ih r h
    | suspended s' =>
      rw [advance_suspended hop] at h
      cases (Prod.mk.inj h).1
    | undefined =>
      simp only [advance, hop] at h
      cases (Prod.mk.inj h).1

end Prog
end RequestLoop
