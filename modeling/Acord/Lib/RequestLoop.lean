import Acord.Lib.Transition

/-! Coroutines that serve requests one after the other: programs over effects whose answers an
environment chooses, with exceptions, and the loop that awaits a request and runs its handler. -/

namespace RequestLoop
open Transition

structure Effects where
  Op : Type
  Res : Op → Type

/-- A program with exceptions `ε`. `crash` is undefined behaviour, which nothing catches. -/
inductive Prog (E : Effects) (ε α : Type)
  | ret (a : α)
  | throw (e : ε)
  | crash
  | call (op : E.Op) (k : E.Res op → Prog E ε α)

namespace Prog
variable {E : Effects} {ε α β : Type}

def bind : Prog E ε α → (α → Prog E ε β) → Prog E ε β
  | ret a, f => f a
  | throw e, _ => throw e
  | crash, _ => crash
  | call op k, f => call op fun r => (k r).bind f

def tryCatch : Prog E ε α → (ε → Prog E ε α) → Prog E ε α
  | ret a, _ => ret a
  | throw e, h => h e
  | crash, _ => crash
  | call op k, h => call op fun r => (k r).tryCatch h

instance : Monad (Prog E ε) where
  pure := ret
  bind := bind

@[simp] theorem pure_eq (a : α) : (pure a : Prog E ε α) = ret a := rfl

@[simp] theorem ret_bind (a : α) (f : α → Prog E ε β) : ret a >>= f = f a := rfl

@[simp] theorem throw_bind (e : ε) (f : α → Prog E ε β) : throw e >>= f = throw e := rfl

@[simp] theorem crash_bind (f : α → Prog E ε β) : crash >>= f = crash := rfl

@[simp] theorem call_bind {op : E.Op} (k : E.Res op → Prog E ε α) (f : α → Prog E ε β) :
    call op k >>= f = call op fun r => k r >>= f := rfl

theorem bind_assoc {γ : Type} (p : Prog E ε α) (f : α → Prog E ε β) (g : β → Prog E ε γ) :
    p >>= f >>= g = p >>= fun a => f a >>= g := by
  induction p with
  | ret a => rfl
  | throw e => rfl
  | crash => rfl
  | call op k ih => exact congrArg (call op) (funext ih)

@[simp] theorem ret_tryCatch (a : α) (h : ε → Prog E ε α) : (ret a).tryCatch h = ret a := rfl

@[simp] theorem throw_tryCatch (e : ε) (h : ε → Prog E ε α) : (throw e).tryCatch h = h e := rfl

@[simp] theorem crash_tryCatch (h : ε → Prog E ε α) : crash.tryCatch h = crash := rfl

@[simp] theorem call_tryCatch {op : E.Op} (k : E.Res op → Prog E ε α) (h : ε → Prog E ε α) :
    (call op k).tryCatch h = call op fun r => (k r).tryCatch h := rfl

def ofExcept : Except ε α → Prog E ε α
  | .ok a => ret a
  | .error e => throw e

@[simp] theorem ofExcept_ok (a : α) : (ofExcept (.ok a) : Prog E ε α) = ret a := rfl

@[simp] theorem ofExcept_error (e : ε) : (ofExcept (.error e) : Prog E ε α) = throw e := rfl

def Ended : Prog E ε α → Prop
  | call _ _ => False
  | _ => True

def Within : Nat → Prog E ε α → Prop
  | 0, call _ _ => False
  | n + 1, call _ k => ∀ r, (k r).Within n
  | _, _ => True

theorem within_ret (a : α) (n : Nat) : (ret a : Prog E ε α).Within n := by
  cases n <;> trivial

theorem within_throw (e : ε) (n : Nat) : (throw e : Prog E ε α).Within n := by
  cases n <;> trivial

theorem within_crash (n : Nat) : (crash : Prog E ε α).Within n := by
  cases n <;> trivial

theorem Within.mono {p : Prog E ε α} {m n : Nat} (h : p.Within m) (hmn : m ≤ n) : p.Within n := by
  induction p generalizing m n with
  | ret a => exact within_ret a n
  | throw e => exact within_throw e n
  | crash => exact within_crash n
  | call op k ih =>
    obtain _ | m := m
    · exact h.elim
    · obtain _ | n := n
      · omega
      · exact fun r => ih r (h r) (Nat.le_of_succ_le_succ hmn)

theorem Within.bind {p : Prog E ε α} {f : α → Prog E ε β} {m n : Nat} (h : p.Within m)
    (hf : ∀ a, (f a).Within n) : (p >>= f).Within (m + n) := by
  induction p generalizing m with
  | ret a => exact (hf a).mono (Nat.le_add_left n m)
  | throw e => exact within_throw e _
  | crash => exact within_crash _
  | call op k ih =>
    obtain _ | m := m
    · exact h.elim
    · rw [Nat.succ_add]
      exact fun r => ih r (h r)

theorem Within.tryCatch {p : Prog E ε α} {f : ε → Prog E ε α} {m n : Nat} (h : p.Within m)
    (hf : ∀ e, (f e).Within n) : (p.tryCatch f).Within (m + n) := by
  induction p generalizing m with
  | ret a => exact within_ret a _
  | throw e => exact (hf e).mono (Nat.le_add_left n m)
  | crash => exact within_crash _
  | call op k ih =>
    obtain _ | m := m
    · exact h.elim
    · rw [Nat.succ_add]
      exact fun r => ih r (h r)

def All (P : E.Op → Prop) : Prog E ε α → Prop
  | call op k => P op ∧ ∀ r, (k r).All P
  | _ => True

variable {P : E.Op → Prop}

theorem All.bind {p : Prog E ε α} {f : α → Prog E ε β} (h : p.All P) (hf : ∀ a, (f a).All P) :
    (p >>= f).All P := by
  induction p with
  | ret a => exact hf a
  | throw e => trivial
  | crash => trivial
  | call op k ih => exact ⟨h.1, fun r => ih r (h.2 r)⟩

theorem All.ofExcept (r : Except ε α) : (Prog.ofExcept r : Prog E ε α).All P := by
  cases r <;> trivial

theorem All.tryCatch {p : Prog E ε α} {f : ε → Prog E ε α} (h : p.All P) (hf : ∀ e, (f e).All P) :
    (p.tryCatch f).All P := by
  induction p with
  | ret a => trivial
  | throw e => exact hf e
  | crash => trivial
  | call op k ih => exact ⟨h.1, fun r => ih r (h.2 r)⟩

end Prog

structure Env (E : Effects) (S : Type) where
  allow : S → (op : E.Op) → E.Res op → Prop
  next : S → (op : E.Op) → E.Res op → S

/-- A server: it awaits the answer to `request`, handles it, and awaits the next while the
handler returns `true`. -/
structure Loop (E : Effects) (ε : Type) where
  start : Prog E ε Bool
  request : E.Op
  handle : E.Res request → Prog E ε Bool

variable {E : Effects} {ε S : Type} {L : Loop E ε} {env : Env E S}

inductive Event (L : Loop E ε)
  | request (r : E.Res L.request)
  | call (op : E.Op) (r : E.Res op)

def Event.isRequest : Event L → Prop
  | request _ => True
  | call _ _ => False

structure Server (E : Effects) (ε S : Type) where
  prog : Prog E ε Bool
  env : S

namespace Loop

inductive Step (L : Loop E ε) (env : Env E S) : Server E ε S → Event L → Server E ε S → Prop
  | request {w : S} {r : E.Res L.request} (h : env.allow w L.request r) :
      Step L env ⟨.ret true, w⟩ (.request r) ⟨L.handle r, env.next w L.request r⟩
  | call {op : E.Op} {k : E.Res op → Prog E ε Bool} {w : S} {r : E.Res op} (h : env.allow w op r) :
      Step L env ⟨.call op k, w⟩ (.call op r) ⟨k r, env.next w op r⟩

def system (L : Loop E ε) (env : Env E S) (w : S) : System (Server E ε S) (Event L) where
  init s := s = ⟨L.start, w⟩
  step := Step L env

theorem Step.unique {s t t' : Server E ε S} {e : Event L} (h : Step L env s e t)
    (h' : Step L env s e t') : t = t' := by
  cases h with
  | request =>
    cases h'
    rfl
  | call =>
    cases h'
    rfl

variable {w₀ w : S} {tr : List (Event L)}

theorem run_request (h : (L.system env w₀).Run tr ⟨.ret true, w⟩) (r : E.Res L.request)
    (hr : env.allow w L.request r) :
    (L.system env w₀).Run (tr ++ [.request r]) ⟨L.handle r, env.next w L.request r⟩ :=
  h.next (.request hr)

theorem run_call {op : E.Op} {k : E.Res op → Prog E ε Bool}
    (h : (L.system env w₀).Run tr ⟨.call op k, w⟩) (r : E.Res op) (hr : env.allow w op r) :
    (L.system env w₀).Run (tr ++ [.call op r]) ⟨k r, env.next w op r⟩ :=
  h.next (.call hr)

end Loop

inductive Exec (L : Loop E ε) (env : Env E S) :
    Prog E ε Bool → S → List (Event L) → Prog E ε Bool → S → Prop
  | refl (p : Prog E ε Bool) (w : S) : Exec L env p w [] p w
  | call {op : E.Op} {k : E.Res op → Prog E ε Bool} {w w' : S} {r : E.Res op} {tr : List (Event L)}
      {q : Prog E ε Bool} (h : env.allow w op r)
      (rest : Exec L env (k r) (env.next w op r) tr q w') :
      Exec L env (.call op k) w (.call op r :: tr) q w'

namespace Exec
variable {p q : Prog E ε Bool} {w w' : S} {tr : List (Event L)}

theorem snoc {op : E.Op} {k : E.Res op → Prog E ε Bool} {r : E.Res op}
    (h : Exec L env p w tr (.call op k) w') (hr : env.allow w' op r) :
    Exec L env p w (tr ++ [.call op r]) (k r) (env.next w' op r) := by
  generalize hq : Prog.call op k = q at h
  induction h with
  | refl p w =>
    subst hq
    exact .call hr (.refl _ _)
  | call h _ ih => exact .call h (ih hr hq)

theorem of_ended (hp : p.Ended) : Exec L env p w tr q w' ↔ tr = [] ∧ q = p ∧ w' = w := by
  constructor
  · intro h
    cases h with
    | refl => exact ⟨rfl, rfl, rfl⟩
    | call => exact hp.elim
  · rintro ⟨rfl, rfl, rfl⟩
    exact .refl _ _

@[simp] theorem of_ret {b : Bool} : Exec L env (.ret b) w tr q w' ↔ tr = [] ∧ q = .ret b ∧ w' = w :=
  of_ended trivial

@[simp] theorem of_throw {e : ε} :
    Exec L env (.throw e) w tr q w' ↔ tr = [] ∧ q = .throw e ∧ w' = w :=
  of_ended trivial

@[simp] theorem of_crash : Exec L env .crash w tr q w' ↔ tr = [] ∧ q = .crash ∧ w' = w :=
  of_ended trivial

theorem of_call {op : E.Op} {k : E.Res op → Prog E ε Bool} (hq : q.Ended) :
    Exec L env (.call op k) w tr q w' ↔ ∃ r tr', tr = .call op r :: tr' ∧ env.allow w op r ∧
      Exec L env (k r) (env.next w op r) tr' q w' := by
  constructor
  · intro h
    cases h with
    | refl => exact hq.elim
    | call h rest => exact ⟨_, _, rfl, h, rest⟩
  · rintro ⟨r, tr', rfl, h, rest⟩
    exact .call h rest

theorem within {n : Nat} (h : Exec L env p w tr q w') (hp : p.Within n) :
    q.Ended ∨ tr.length < n := by
  induction h generalizing n with
  | refl p w =>
    cases p with
    | call op k =>
      cases n with
      | zero => exact hp.elim
      | succ n => exact .inr (Nat.succ_pos n)
    | _ => exact .inl trivial
  | call _ _ ih =>
    cases n with
    | zero => exact hp.elim
    | succ n => exact (ih (hp _)).imp_right Nat.succ_lt_succ

theorem all {P : E.Op → Prop} (h : Exec L env p w tr q w') (hp : p.All P) :
    ∀ op r, Event.call op r ∈ tr → P op := by
  induction h with
  | refl p w => exact fun _ _ hm => (List.not_mem_nil hm).elim
  | @call op k w w' r tr q _ _ ih =>
    intro op' r' hm
    rcases List.mem_cons.mp hm with he | hm
    · obtain ⟨rfl, _⟩ := Event.call.inj he
      exact hp.1
    · exact ih (hp.2 r) op' r' hm

theorem all_rest {P : E.Op → Prop} (h : Exec L env p w tr q w') (hp : p.All P) : q.All P := by
  induction h with
  | refl => exact hp
  | call _ _ ih => exact ih (hp.2 _)

theorem of_call_or {op : E.Op} {k : E.Res op → Prog E ε Bool}
    (h : Exec L env (.call op k) w tr q w') : (tr = [] ∧ q = .call op k ∧ w' = w) ∨
    ∃ r tr', tr = .call op r :: tr' ∧ env.allow w op r ∧
      Exec L env (k r) (env.next w op r) tr' q w' := by
  cases h with
  | refl => exact .inl ⟨rfl, rfl, rfl⟩
  | call h rest => exact .inr ⟨_, _, rfl, h, rest⟩

theorem of_call_mem {op : E.Op} {k : E.Res op → Prog E ε Bool} {e : Event L}
    (h : Exec L env (.call op k) w tr q w') (hm : e ∈ tr) : ∃ r tr', tr = .call op r :: tr' ∧
      env.allow w op r ∧ Exec L env (k r) (env.next w op r) tr' q w' := by
  cases h with
  | refl => exact (List.not_mem_nil hm).elim
  | call h rest => exact ⟨_, _, rfl, h, rest⟩

end Exec

/-- `tr` leads from the start to the requests `ps`, each answered by the calls with it, and to the
environment `w` in which the next one is awaited. -/
inductive Loop.Served (L : Loop E ε) (env : Env E S) (w₀ : S) :
    List (Event L) → List (E.Res L.request × List (Event L)) → S → Prop
  | start {tr : List (Event L)} {w : S} (h : Exec L env L.start w₀ tr (.ret true) w) :
      Served L env w₀ tr [] w
  | next {tr mid : List (Event L)} {ps : List (E.Res L.request × List (Event L))} {w w' : S}
      {r : E.Res L.request} (hs : Served L env w₀ tr ps w) (hr : env.allow w L.request r)
      (h : Exec L env (L.handle r) (env.next w L.request r) mid (.ret true) w') :
      Served L env w₀ (tr ++ .request r :: mid) (ps ++ [(r, mid)]) w'

theorem Loop.run_served {w₀ : S} {tr : List (Event L)} {s : Server E ε S}
    (h : (L.system env w₀).Run tr s) :
    Exec L env L.start w₀ tr s.prog s.env ∨
    ∃ tr' ps w r mid, tr = tr' ++ .request r :: mid ∧ L.Served env w₀ tr' ps w ∧
      env.allow w L.request r ∧
      Exec L env (L.handle r) (env.next w L.request r) mid s.prog s.env := by
  induction h with
  | start h =>
    obtain rfl := h
    exact .inl (.refl _ _)
  | @next tr s t a hr hs ih =>
    cases hs with
    | @request w r hok =>
      right
      have hserved : ∃ ps, L.Served env w₀ tr ps w := by
        rcases ih with hstart | ⟨tr', ps, w', r', mid, rfl, hs', hok', he⟩
        · exact ⟨_, .start hstart⟩
        · exact ⟨_, hs'.next hok' he⟩
      obtain ⟨ps, hps⟩ := hserved
      exact ⟨tr, ps, w, r, [], rfl, hps, hok, .refl _ _⟩
    | call hok =>
      rcases ih with hstart | ⟨tr', ps, w', r', mid, rfl, hs', hok', he⟩
      · exact .inl (hstart.snoc hok)
      · right
        rw [List.append_assoc, List.cons_append]
        exact ⟨tr', ps, w', r', _, rfl, hs', hok', he.snoc hok⟩

theorem Loop.run_handler {w₀ : S} {tr pre mid : List (Event L)} {r : E.Res L.request}
    {s : Server E ε S} (h : (L.system env w₀).Run tr s)
    (hl : LastAt Event.isRequest tr pre (.request r) mid) :
    ∃ w, env.allow w L.request r ∧
      Exec L env (L.handle r) (env.next w L.request r) mid s.prog s.env := by
  refine h.episode (J := fun a mid s => ∀ r, a = .request r → ∃ w, env.allow w L.request r ∧
    Exec L env (L.handle r) (env.next w L.request r) mid s.prog s.env) ?_ ?_ hl r rfl
  · rintro s a t hs hp r rfl
    cases hs with
    | request h => exact ⟨_, h, .refl _ _⟩
  · rintro s a mid b t hJ hs hb r rfl
    obtain ⟨w, hw, he⟩ := hJ r rfl
    cases hs with
    | request h => exact absurd trivial hb
    | call h => exact ⟨w, hw, he.snoc h⟩

end RequestLoop
