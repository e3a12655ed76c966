import Acord.AssetBackend

/-! What a handler says to the asset manager: nothing, or one dial, one request and the frames it
reads before and after it. -/

namespace Acord
open Ac RequestLoop Transition

variable {sch : SchemaLib} {w w' : LocalEnv} {mid : List (LocalEvent sch)} {q : LocalProg Bool}
  {us : List Str}

def aioFrame : LocalEvent sch → Option Ac.Frame
  | .call (.aioPush f) .ok => some f
  | _ => none

def aioSent (mid : List (LocalEvent sch)) : List Ac.Frame := mid.filterMap aioFrame

def aioGot (mid : List (LocalEvent sch)) : List Ac.Frame := mid.filterMap amgrFrame

structure Asking (us : List Str) (mid : List (LocalEvent sch)) (q : LocalProg Bool) : Prop where
  sent : aioSent mid <+: [urlsRequest us]
  dials : ∀ id k, q = .call (.connect id) k → mid = []
  writes : ∀ f k, q = .call (.aioPush f) k → aioSent mid = [] ∧ f = urlsRequest us
  reads : ∀ k, q = .call .aioPoll k → (aioSent mid = [] ∧ aioGot mid = []) ∨
    (aioSent mid = [urlsRequest us] ∧ (aioGot mid).length = 1)

theorem Asking.ended (hs : aioSent mid <+: [urlsRequest us]) (hq : q.Ended) : Asking us mid q where
  sent := hs
  dials _ _ h := absurd hq (h ▸ id)
  writes _ _ h := absurd hq (h ▸ id)
  reads _ h := absurd hq (h ▸ id)

theorem Asking.dialling (id : Str) {k} :
    Asking us ([] : List (LocalEvent sch)) (.call (.connect id) k) where
  sent := List.nil_prefix
  dials _ _ _ := rfl
  writes _ _ h := by cases h
  reads _ h := by cases h

theorem Asking.writing (hs : aioSent mid = []) {k} :
    Asking us mid (.call (.aioPush (urlsRequest us)) k) where
  sent := hs ▸ List.nil_prefix
  dials _ _ h := by cases h
  writes _ _ h := by
    cases h
    exact ⟨hs, rfl⟩
  reads _ h := by cases h

theorem Asking.reading {k} (hs : (aioSent mid = [] ∧ aioGot mid = []) ∨
    (aioSent mid = [urlsRequest us] ∧ (aioGot mid).length = 1)) :
    Asking us mid (.call .aioPoll k) where
  sent := by
    rcases hs with ⟨hs, _⟩ | ⟨hs, _⟩
    · exact hs ▸ List.nil_prefix
    · exact hs ▸ List.prefix_rfl
  dials _ _ h := by cases h
  writes _ _ h := by cases h
  reads _ _ := hs

theorem Asking.telling (hs : aioSent mid <+: [urlsRequest us]) (f : Ac.Frame) {k} :
    Asking us mid (.call (.push f) k) where
  sent := hs
  dials _ _ h := by cases h
  writes _ _ h := by cases h
  reads _ h := by cases h

theorem push_over {r : Pushed} {F : Unit → LocalProg Bool} (hr : r ≠ .ok)
    (h : Exec (acordRun sch) localEnv (catchClosed (r.result >>= F)) w mid q w') :
    mid = [] ∧ q.Ended := by
  have hend : (catchClosed (r.result >>= F)).Ended := by
    cases r with
    | ok => exact absurd rfl hr
    | closed | detached => trivial
  obtain ⟨rfl, rfl, _⟩ := (Exec.of_ended hend).mp h
  exact ⟨rfl, hend⟩

theorem poll_over {r : Polled} {F : Ac.Frame → LocalProg Bool} (hr : ∀ f, r ≠ .frame f)
    (h : Exec (acordRun sch) localEnv (catchClosed (r.result >>= F)) w mid q w') :
    mid = [] ∧ q.Ended := by
  have hend : (catchClosed (r.result >>= F)).Ended := by
    cases r with
    | frame f => exact absurd rfl (hr f)
    | closed | detached => trivial
  obtain ⟨rfl, rfl, _⟩ := (Exec.of_ended hend).mp h
  exact ⟨rfl, hend⟩

theorem thrown_ended (e : Exn) : (catchClosed (.throw e)).Ended := by
  cases e <;> trivial

theorem assets_asking (h : Exec (acordRun sch) localEnv
    (catchClosed (acordMakeAssetsAvailable us >>= fun _ => .ret true)) w mid q w') :
    Asking us mid q := by
  simp only [acordMakeAssetsAvailable, Prog.bind_assoc] at h
  rcases h.of_call_or with ⟨rfl, rfl, _⟩ | ⟨r, rest, rfl, _, hc⟩
  · exact .dialling _
  cases r with
  | error e =>
    obtain ⟨rfl, rfl, _⟩ := (Exec.of_ended (thrown_ended e)).mp hc
    exact .ended List.nil_prefix (thrown_ended e)
  | ok u =>
    rcases hc.of_call_or with ⟨rfl, rfl, _⟩ | ⟨r, rest, rfl, _, hs⟩
    · exact .reading (.inl ⟨rfl, rfl⟩)
    by_cases hr : ∃ state, r = .frame state
    · obtain ⟨state, rfl⟩ := hr
      rcases hs.of_call_or with ⟨rfl, rfl, _⟩ | ⟨r, rest, rfl, _, ha⟩
      · exact .writing rfl
      by_cases hr : r = .ok
      · subst hr
        rcases ha.of_call_or with ⟨rfl, rfl, _⟩ | ⟨r, rest, rfl, _, hg⟩
        · exact .reading (.inr ⟨rfl, rfl⟩)
        by_cases hr : ∃ g, r = .frame g
        · obtain ⟨g, rfl⟩ := hr
          rcases hg.of_call_or with ⟨rfl, rfl, _⟩ | ⟨r, rest, rfl, _, hp⟩
          · exact .telling List.prefix_rfl _
          have hend : (catchClosed (Pushed.result r >>= fun _ => .ret true)).Ended := by
            cases r <;> trivial
          obtain ⟨rfl, rfl, _⟩ := (Exec.of_ended hend).mp hp
          exact .ended List.prefix_rfl hend
        · obtain ⟨rfl, hend⟩ := poll_over (not_exists.mp hr) hg
          exact .ended List.prefix_rfl hend
      · obtain ⟨rfl, hend⟩ := push_over hr ha
        cases r with
        | ok => exact absurd rfl hr
        | closed | detached => exact .ended List.nil_prefix hend
    · obtain ⟨rfl, hend⟩ := poll_over (not_exists.mp hr) hs
      exact .ended List.nil_prefix hend

def LocalOp.Aio : LocalOp → Prop
  | connect _ | aioPush _ | aioPoll => True
  | _ => False

abbrev Apart {α : Type} (p : LocalProg α) : Prop := p.All fun op : LocalOp => ¬ op.Aio

theorem push_apart (f : Ac.Frame) : Apart (Io.push f >>= fun _ => .ret true) :=
  (push_all f id).bind fun _ => trivial

theorem start_apart (sch : SchemaLib) : Apart (acordRun sch).start :=
  catchClosed_all (push_apart _)

theorem serve_apart {p : Polled} (hp : ¬ ∃ f us, p = .frame f ∧
    f.op = Schema.opMakeAssetsAvailable ∧ sch.urls f.data = .ok us) :
    Apart (catchClosed (serve sch p)) := by
  cases p with
  | closed => trivial
  | detached => trivial
  | frame f =>
    apply catchClosed_all
    simp only [serve, Polled.result, Prog.pure_eq, Prog.ret_bind]
    split
    next hop =>
      cases hu : sch.urls f.data with
      | error e => trivial
      | ok us => exact absurd ⟨f, us, rfl, hop, hu⟩ hp
    next =>
      split
      · refine Prog.All.bind (Prog.All.tryCatch ?_ fun _ => trivial) ?_
        · cases sch.provider f.data with
          | error e => trivial
          | ok name =>
            refine (push_all _ id).bind fun _ => ?_
            exact ⟨id, fun _ => ⟨id, fun r => by cases r <;> trivial⟩⟩
        · rintro (_ | error)
          · trivial
          · exact push_apart _
      · exact push_apart _

theorem serve_asking {p : Polled}
    (h : Exec (acordRun sch) localEnv (catchClosed (serve sch p)) w mid q w') :
    (∃ f us, p = .frame f ∧ f.op = Schema.opMakeAssetsAvailable ∧ sch.urls f.data = .ok us ∧
      Asking us mid q) ∨
    Apart q ∧ ∀ op r, Event.call op r ∈ mid → ¬ op.Aio := by
  -- a handler asks for the assets of its request, or leaves the asset manager alone
  by_cases hf : ∃ f us, p = .frame f ∧ f.op = Schema.opMakeAssetsAvailable ∧ sch.urls f.data = .ok us
  · obtain ⟨f, us, rfl, hop, hu⟩ := hf
    simp only [serve, Polled.result, Prog.pure_eq, Prog.ret_bind, if_pos hop] at h
    rw [hu] at h
    exact .inl ⟨f, us, rfl, hop, hu, assets_asking h⟩
  · have hall := serve_apart hf
    exact .inr ⟨h.all_rest hall, h.all hall⟩

end Acord
