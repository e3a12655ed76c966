import Acord.Lib.RequestLoop

/-! Programs over effects run in a world that answers their calls: how a run ends, the calls it
made with their answers, and the world it leaves. -/

namespace RequestLoop

structure World (E : Effects) (S : Type) where
  answer : S → (op : E.Op) → E.Res op × S

inductive Outcome (ε α : Type)
  | ret (a : α)
  | throw (e : ε)
  | crash

structure Call (E : Effects) where
  op : E.Op
  res : E.Res op

structure Ran (E : Effects) (ε α S : Type) where
  outcome : Outcome ε α
  calls : List (Call E)
  world : S

variable {E : Effects} {ε α β S : Type}

namespace Prog

def run (W : World E S) : Prog E ε α → S → Ran E ε α S
  | ret a, s => ⟨.ret a, [], s⟩
  | throw e, s => ⟨.throw e, [], s⟩
  | crash, s => ⟨.crash, [], s⟩
  | call op k, s =>
    let r := W.answer s op
    let rest := (k r.1).run W r.2
    { rest with calls := ⟨op, r.1⟩ :: rest.calls }

variable {W : World E S}

@[simp] theorem run_ret (a : α) (s : S) : (ret a : Prog E ε α).run W s = ⟨.ret a, [], s⟩ := rfl

@[simp] theorem run_throw (e : ε) (s : S) :
    (throw e : Prog E ε α).run W s = ⟨.throw e, [], s⟩ := rfl

theorem run_call {op : E.Op} (k : E.Res op → Prog E ε α) (s : S) :
    (call op k).run W s =
      { (k (W.answer s op).1).run W (W.answer s op).2 with
        calls := ⟨op, (W.answer s op).1⟩ ::
          ((k (W.answer s op).1).run W (W.answer s op).2).calls } := rfl

theorem run_bind_ret {p : Prog E ε α} {f : α → Prog E ε β} {s : S} {a : α}
    (h : (p.run W s).outcome = .ret a) :
    (p >>= f).run W s = { (f a).run W (p.run W s).world with
      calls := (p.run W s).calls ++ ((f a).run W (p.run W s).world).calls } := by
  induction p generalizing s with
  | ret b =>
    obtain rfl := Outcome.ret.inj h
    rfl
  | throw e => cases h
  | crash => cases h
  | call op k ih =>
    have hk := ih (W.answer s op).1 (s := (W.answer s op).2) h
    rw [call_bind, run_call, hk]
    rfl

theorem run_bind_throw {p : Prog E ε α} {f : α → Prog E ε β} {s : S} {e : ε}
    (h : (p.run W s).outcome = .throw e) :
    (p >>= f).run W s = ⟨.throw e, (p.run W s).calls, (p.run W s).world⟩ := by
  induction p generalizing s with
  | ret a => cases h
  | throw e' =>
    obtain rfl := Outcome.throw.inj h
    rfl
  | crash => cases h
  | call op k ih =>
    have hk := ih (W.answer s op).1 (s := (W.answer s op).2) h
    rw [call_bind, run_call, hk]
    rfl

theorem All.run_calls {P : E.Op → Prop} {p : Prog E ε α} (h : p.All P) (s : S) :
    ∀ c ∈ (p.run W s).calls, P c.op := by
  induction p generalizing s with
  | ret a | throw e | crash => exact fun c hc => (List.not_mem_nil hc).elim
  | call op k ih =>
    intro c hc
    rcases List.mem_cons.mp hc with rfl | hc
    · exact h.1
    · exact ih _ (h.2 _) _ c hc

def NoCrash : Prog E ε α → Prop
  | crash => False
  | call _ k => ∀ r, (k r).NoCrash
  | _ => True

theorem NoCrash.bind {p : Prog E ε α} {f : α → Prog E ε β} (h : p.NoCrash)
    (hf : ∀ a, (f a).NoCrash) : (p >>= f).NoCrash := by
  induction p with
  | ret a => exact hf a
  | throw e => trivial
  | crash => exact h
  | call op k ih => exact fun r => ih r (h r)

theorem NoCrash.ofExcept (r : Except ε α) : (Prog.ofExcept r : Prog E ε α).NoCrash := by
  cases r <;> trivial

theorem NoCrash.run {p : Prog E ε α} (h : p.NoCrash) (s : S) :
    (∃ a, (p.run W s).outcome = .ret a) ∨ ∃ e, (p.run W s).outcome = .throw e := by
  induction p generalizing s with
  | ret a => exact .inl ⟨a, rfl⟩
  | throw e => exact .inr ⟨e, rfl⟩
  | crash => exact h.elim
  | call op k ih => exact ih _ (h _) _

theorem run_bind_calls {p : Prog E ε α} {f : α → Prog E ε β}
    (hf : ∀ a s, ((f a).run W s).calls = []) (s : S) :
    ((p >>= f).run W s).calls = (p.run W s).calls := by
  induction p generalizing s with
  | ret a => exact hf a s
  | throw e => rfl
  | crash => rfl
  | call op k ih =>
    rw [call_bind, run_call, run_call]
    exact congrArg _ (ih (W.answer s op).1 (W.answer s op).2)

theorem run_bind_calls_congr {γ : Type} {p : Prog E ε α} {f : α → Prog E ε β}
    {g : α → Prog E ε γ}
    (h : ∀ a s, ((f a).run W s).calls = ((g a).run W s).calls) (s : S) :
    ((p >>= f).run W s).calls = ((p >>= g).run W s).calls := by
  induction p generalizing s with
  | ret a => exact h a s
  | throw e => rfl
  | crash => rfl
  | call op k ih =>
    rw [call_bind, call_bind, run_call, run_call]
    exact congrArg (_ :: ·) (ih (W.answer s op).1 (W.answer s op).2)

theorem run_bind_inv {p : Prog E ε α} {f : α → Prog E ε β} {s : S} {b : β}
    (h : ((p >>= f).run W s).outcome = .ret b) :
    ∃ a, (p.run W s).outcome = .ret a ∧ ((f a).run W (p.run W s).world).outcome = .ret b := by
  induction p generalizing s with
  | ret a => exact ⟨a, rfl, h⟩
  | throw e => cases h
  | crash => cases h
  | call op k ih =>
    rw [call_bind, run_call] at h
    exact ih (W.answer s op).1 h

end Prog
end RequestLoop
