import Acord.LoadProvider

/-! What the coroutine has polled and answered by the time it hands the client over to a
provider. -/

namespace Acord
open Ac RequestLoop Transition

variable {sch : SchemaLib} {w w' : LocalEnv} {mid tr : List (LocalEvent sch)} {q : LocalProg Bool}
  {f : Ac.Frame}

def polledFrame : LocalEvent sch → Option Ac.Frame
  | .request (.frame f) => some f
  | _ => none

def polledFrames (tr : List (LocalEvent sch)) : List Ac.Frame := tr.filterMap polledFrame

structure RepliesTo (request : Ac.Frame) (calls : List (LocalEvent sch)) (reply : Ac.Frame) :
    Prop where
  sent : sent calls = [reply]
  accepted : accepted calls = [reply]
  assets : request.op = Schema.opMakeAssetsAvailable → ∃ us g, sch.urls request.data = .ok us ∧
    amgrReply calls = some g ∧ reply = { g with op := Schema.opMakeAssetsAvailable }
  refused : request.op = Schema.opLoadProvider → ∃ e, reply = errorFrame e
  unknown : request.op ≠ Schema.opMakeAssetsAvailable → request.op ≠ Schema.opLoadProvider →
    reply = unknownOp request.op

structure Exchange (sch : SchemaLib) where
  request : Ac.Frame
  calls : List (LocalEvent sch)
  reply : Ac.Frame
  only : polledFrames calls = []
  right : RepliesTo request calls reply

def Exchange.events (x : Exchange sch) : List (LocalEvent sch) :=
  .request (Polled.frame x.request) :: x.calls

theorem exec_polled {p : LocalProg Bool} (h : Exec (acordRun sch) localEnv p w mid q w') :
    polledFrames mid = [] := by
  induction h with
  | refl => rfl
  | call _ _ ih => exact ih

theorem assets_goes_on (h1 : f.op = Schema.opMakeAssetsAvailable) (hw : w.detached = false)
    (h : Exec (acordRun sch) localEnv (catchClosed (serve sch (.frame f))) w mid (.ret true) w') :
    ∃ r, RepliesTo f mid r ∧ ¬ Attached mid ∧ w' = w := by
  have h2 : f.op ≠ Schema.opLoadProvider := h1 ▸ by decide
  have hq : (Prog.ret true : LocalProg Bool).Ended := trivial
  have hthrow : ∀ e : Exn, Prog.ret true ≠ catchClosed (.throw e) := by
    intro e
    cases e <;> exact nofun
  simp only [serve, Polled.result, Prog.pure_eq, Prog.ret_bind, h1, ↓reduceIte] at h
  cases hu : sch.urls f.data with
  | error e =>
    rw [hu, Prog.ofExcept_error, Prog.throw_bind] at h
    obtain ⟨_, hf, _⟩ := (Exec.of_ended (by cases e <;> trivial)).mp h
    exact absurd hf (hthrow e)
  | ok us =>
    rw [hu, Prog.ofExcept_ok, Prog.ret_bind] at h
    simp only [acordMakeAssetsAvailable, Prog.bind_assoc] at h
    rcases exec_connect hq h with ⟨_, rfl, hc⟩ | ⟨e, _, hf⟩
    · rcases exec_aioPoll hq hc with ⟨state, _, rfl, hs⟩ | ⟨_, hf⟩
      · rcases exec_aioPush hq hs with ⟨_, rfl, ha⟩ | ⟨_, hf⟩
        · rcases exec_aioPoll hq ha with ⟨g, _, rfl, hg⟩ | ⟨_, hf⟩
          · rcases exec_push hq hw hg with ⟨_, rfl, hk⟩ | ⟨_, hf⟩
            · obtain ⟨rfl, _, rfl⟩ := Exec.of_ret.mp hk
              refine ⟨_, ⟨rfl, rfl, fun _ => ⟨us, g, hu, rfl, rfl⟩, fun h => absurd h h2,
                fun h => absurd h1 h⟩, ?_, rfl⟩
              simp [Attached]
            · cases hf
          · cases hf
        · cases hf
      · cases hf
    · exact absurd hf (hthrow e)

theorem serve_goes_on {p : Polled} (hw : w.detached = false)
    (h : Exec (acordRun sch) localEnv (catchClosed (serve sch p)) w mid (.ret true) w') :
    ∃ f r, p = .frame f ∧ RepliesTo f mid r ∧ ¬ Attached mid ∧ w' = w := by
  have hq : (Prog.ret true : LocalProg Bool).Ended := trivial
  cases p with
  | closed =>
    obtain ⟨_, hf, _⟩ := Exec.of_ret.mp h
    cases hf
  | detached =>
    obtain ⟨_, hf, _⟩ := Exec.of_crash.mp h
    cases hf
  | frame f =>
    refine ⟨f, ?_⟩
    by_cases h1 : f.op = Schema.opMakeAssetsAvailable
    · obtain ⟨r, hr⟩ := assets_goes_on h1 hw h
      exact ⟨r, rfl, hr⟩
    by_cases h2 : f.op = Schema.opLoadProvider
    · rcases serve_loadProvider h2 hw hq h with
        ⟨e, rfl, _, rfl⟩ | ⟨_, _, hf⟩ | ⟨_, _, hf⟩ | ⟨_, _, hf⟩ | ⟨_, _, _, _, hf⟩
      · refine ⟨errorFrame e, rfl, ⟨rfl, rfl, fun h => absurd h h1, fun _ => ⟨e, rfl⟩,
          fun _ h => absurd h2 h⟩, ?_, rfl⟩
        simp [Attached]
      all_goals cases hf
    · simp only [serve, Polled.result, Prog.pure_eq, Prog.ret_bind, h1, h2, ↓reduceIte] at h
      rcases exec_push hq hw h with ⟨rest, rfl, hk⟩ | ⟨_, hf⟩
      · obtain ⟨rfl, _, rfl⟩ := Exec.of_ret.mp hk
        refine ⟨unknownOp f.op, rfl, ⟨rfl, rfl, fun h => absurd h h1, fun h => absurd h h2,
          fun _ _ => rfl⟩, ?_, rfl⟩
        simp [Attached]
      · cases hf

def LocalOp.IsAttach : LocalOp → Prop
  | attach _ => True
  | _ => False

abbrev Stays {α : Type} (p : LocalProg α) : Prop := p.All fun op : LocalOp => ¬ op.IsAttach

theorem stays_unattached {p : LocalProg Bool} (h : Exec (acordRun sch) localEnv p w mid q w')
    (hp : Stays p) : ¬ Attached mid := by
  rintro ⟨name, hm⟩
  exact h.all hp _ _ hm trivial

theorem pushed_stays (f : Ac.Frame) :
    Stays (catchClosed (Io.push f >>= fun _ => .ret true)) :=
  catchClosed_all ((push_all f id).bind (f := fun _ => .ret true) fun _ => trivial)

theorem attached_load {p : Polled} (hw : w.detached = false)
    (h : Exec (acordRun sch) localEnv (catchClosed (serve sch p)) w mid q w')
    (ha : Attached mid) :
    ∃ f name, p = .frame f ∧ f.op = Schema.opLoadProvider ∧
      mid = [.call (.push loadedFrame) Pushed.ok, .call .detach (),
        .call (.attach name) (Except.ok ())] ∧ q = .ret false := by
  -- only a request to load a provider hands the client over, and nothing follows
  cases p with
  | closed => exact absurd ha (stays_unattached h trivial)
  | detached => exact absurd ha (stays_unattached h trivial)
  | frame f =>
    refine ⟨f, ?_⟩
    by_cases h2 : f.op = Schema.opLoadProvider
    · have h1 : f.op ≠ Schema.opMakeAssetsAvailable := h2 ▸ by decide
      simp only [serve, Polled.result, Prog.pure_eq, Prog.ret_bind, if_neg h1, if_pos h2] at h
      cases hp : sch.provider f.data with
      | error e =>
        rw [hp] at h
        exact absurd ha (stays_unattached h (pushed_stays _))
      | ok name =>
        rw [hp] at h
        obtain ⟨n, hm⟩ := ha
        obtain ⟨r, rest, rfl, hr, hk⟩ := h.of_call_mem hm
        cases r with
        | ok =>
          have hm : Event.call (LocalOp.attach n) (Except.ok ()) ∈ rest := by simpa using hm
          obtain ⟨_, rest, rfl, _, hd⟩ := hk.of_call_mem hm
          have hm : Event.call (LocalOp.attach n) (Except.ok ()) ∈ rest := by simpa using hm
          obtain ⟨r, rest, rfl, _, he⟩ := hd.of_call_mem hm
          cases r with
          | ok u =>
            obtain ⟨rfl, rfl, _⟩ := Exec.of_ret.mp he
            exact ⟨name, rfl, h2, rfl, rfl⟩
          | error e =>
            have hm : Event.call (LocalOp.attach n) (Except.ok ()) ∈ rest := by simpa using hm
            exact absurd ⟨n, hm⟩ (stays_unattached he (pushed_stays _))
        | closed =>
          have hm : Event.call (LocalOp.attach n) (Except.ok ()) ∈ rest := by simpa using hm
          exact absurd ⟨n, hm⟩ (stays_unattached hk (pushed_stays _))
        | detached => exact absurd (hw.symm.trans hr) (by decide)
    · refine absurd ha (stays_unattached h (catchClosed_all ?_))
      simp only [serve, Polled.result, Prog.pure_eq, Prog.ret_bind, if_neg h2]
      split
      · refine Prog.All.bind ?_ fun us => ?_
        · cases sch.urls f.data <;> trivial
        · exact (acordMakeAssetsAvailable_all us (fun _ => id) id (fun _ => id) fun _ => id).bind
            fun _ => trivial
      · exact (push_all _ id).bind fun _ => trivial

def startEvents (sch : SchemaLib) : List (LocalEvent sch) :=
  [.call (.push (sch.stateChange Schema.id)) Pushed.ok]

theorem exec_start {w₀ : LocalEnv} (hw : w₀.detached = false)
    (h : Exec (acordRun sch) localEnv (acordRun sch).start w₀ tr (.ret true) w) :
    tr = startEvents sch ∧ w = w₀ := by
  rcases exec_push (q := .ret true) trivial hw h with ⟨rest, rfl, hk⟩ | ⟨_, hf⟩
  · obtain ⟨rfl, _, rfl⟩ := Exec.of_ret.mp hk
    exact ⟨rfl, rfl⟩
  · cases hf

theorem attached_append {tr' : List (LocalEvent sch)} :
    Attached (tr ++ tr') ↔ Attached tr ∨ Attached tr' := by
  simp [Attached, exists_or]

theorem attached_request {p : Polled} : Attached (.request p :: mid) ↔ Attached mid := by
  simp [Attached]

theorem served_exchanges {ps : List (Polled × List (LocalEvent sch))}
    (h : (acordRun sch).Served localEnv ⟨false, false⟩ tr ps w) :
    ∃ xs : List (Exchange sch), tr = startEvents sch ++ xs.flatMap Exchange.events ∧
      ¬ Attached tr ∧ w.detached = false := by
  induction h with
  | start h =>
    obtain ⟨rfl, rfl⟩ := exec_start rfl h
    exact ⟨[], rfl, by simp [Attached, startEvents], rfl⟩
  | @next tr mid ps w w' r hs hr he ih =>
    obtain ⟨xs, htr, hno, hw⟩ := ih
    have hw' : (localEnv.next w LocalOp.poll r).detached = false := by
      cases r <;> exact hw
    obtain ⟨f, reply, rfl, hreply, hno', rfl⟩ := serve_goes_on hw' he
    refine ⟨xs ++ [⟨f, mid, reply, exec_polled he, hreply⟩], ?_, ?_, hw'⟩
    · rw [htr, List.flatMap_append, List.append_assoc]
      simp [Exchange.events]
    · rw [attached_append, attached_request]
      exact fun h => h.elim hno hno'

def loadEvents (f : Ac.Frame) (name : Str) : List (LocalEvent sch) :=
  [.request (Polled.frame f), .call (.push loadedFrame) Pushed.ok, .call .detach (),
    .call (.attach name) (Except.ok ())]

theorem attached_conversation {s : Server localEffects Exn LocalEnv}
    (h : (localSession sch).Run tr s) (ha : Attached tr) :
    ∃ (xs : List (Exchange sch)) (f : Ac.Frame) (name : Str), f.op = Schema.opLoadProvider ∧
      tr = startEvents sch ++ xs.flatMap Exchange.events ++ loadEvents f name ∧
      s.prog = .ret false := by
  rcases Loop.run_served h with hstart | ⟨tr', ps, w, r, mid, rfl, hs, hr, he⟩
  · exact absurd ha (stays_unattached hstart (pushed_stays _))
  · obtain ⟨xs, rfl, hno, hw⟩ := served_exchanges hs
    have hmid : Attached mid := attached_request.mp ((attached_append.mp ha).resolve_left hno)
    have hw' : (localEnv.next w LocalOp.poll r).detached = false := by
      cases r <;> exact hw
    obtain ⟨f, name, rfl, hop, rfl, hq⟩ := attached_load hw' he hmid
    exact ⟨xs, f, name, hop, rfl, hq⟩

theorem filterMap_snoc {α β : Type} (g : α → Option β) (l : List α) (a : α) :
    (l ++ [a]).filterMap g = l.filterMap g ++ (g a).toList := by
  rw [List.filterMap_append]
  cases h : g a <;> simp [h]

theorem accepted_append {tr' : List (LocalEvent sch)} :
    accepted (tr ++ tr') = accepted tr ++ accepted tr' := List.filterMap_append

theorem polledFrames_append {tr' : List (LocalEvent sch)} :
    polledFrames (tr ++ tr') = polledFrames tr ++ polledFrames tr' := List.filterMap_append

theorem accepted_exchanges (xs : List (Exchange sch)) :
    accepted (xs.flatMap Exchange.events) = xs.map Exchange.reply := by
  induction xs with
  | nil => rfl
  | cons x xs ih =>
    have hx : accepted x.events = [x.reply] := x.right.accepted
    rw [List.flatMap_cons, accepted_append, ih, hx, List.map_cons, List.singleton_append]

theorem polledFrames_exchanges (xs : List (Exchange sch)) :
    polledFrames (xs.flatMap Exchange.events) = xs.map Exchange.request := by
  induction xs with
  | nil => rfl
  | cons x xs ih =>
    have hx : polledFrames x.events = [x.request] := congrArg (x.request :: ·) x.only
    rw [List.flatMap_cons, polledFrames_append, ih, hx, List.map_cons, List.singleton_append]

end Acord
