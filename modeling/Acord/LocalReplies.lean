import Acord.LocalSession
import Acord.FrameCvt

/-! What the client is told: the replies to the requests a session goes on serving after. -/

namespace Acord
open Ac RequestLoop Transition

variable {sch : SchemaLib} {w w' : LocalEnv} {mid tr : List (LocalEvent sch)} {q : LocalProg Bool}

def sentFrame : LocalEvent sch → Option Ac.Frame
  | .call (.push f) _ => some f
  | _ => none

def acceptedFrame : LocalEvent sch → Option Ac.Frame
  | .call (.push f) .ok => some f
  | _ => none

def amgrFrame : LocalEvent sch → Option Ac.Frame
  | .call .aioPoll (.frame f) => some f
  | _ => none

def sent (mid : List (LocalEvent sch)) : List Ac.Frame := mid.filterMap sentFrame

def accepted (mid : List (LocalEvent sch)) : List Ac.Frame := mid.filterMap acceptedFrame

def amgrReply (mid : List (LocalEvent sch)) : Option Ac.Frame := (mid.filterMap amgrFrame)[1]?

def ClientClosed (mid : List (LocalEvent sch)) : Prop :=
  ∃ f, Event.call (LocalOp.push f) Pushed.closed ∈ mid

@[simp] theorem catchClosed_ret (b : Bool) : catchClosed (.ret b) = .ret b := rfl

@[simp] theorem catchClosed_crash : catchClosed .crash = .crash := rfl

/-! What each operation of the coroutine comes to, when what follows it runs to its end. -/

section
variable {K : LocalProg Bool} {F : Ac.Frame → LocalProg Bool} {f : Ac.Frame} (hq : q.Ended)
include hq

theorem exec_push (hw : w.detached = false)
    (h : Exec (acordRun sch) localEnv (catchClosed (Io.push f >>= fun _ => K)) w mid q w') :
    (∃ rest, mid = .call (.push f) Pushed.ok :: rest ∧
      Exec (acordRun sch) localEnv (catchClosed K) w rest q w') ∨
    (mid = [.call (.push f) Pushed.closed] ∧ q = .ret false) := by
  obtain ⟨r, rest, rfl, hr, h⟩ := (Exec.of_call hq).mp h
  cases r with
  | ok => exact .inl ⟨rest, rfl, h⟩
  | closed =>
    obtain ⟨rfl, rfl, _⟩ := Exec.of_ret.mp h
    exact .inr ⟨rfl, rfl⟩
  | detached => exact absurd (hw.symm.trans hr) (by decide)

theorem exec_connect {id : Str}
    (h : Exec (acordRun sch) localEnv (catchClosed (Io.connect id >>= fun _ => K)) w mid q w') :
    (∃ rest, mid = .call (.connect id) (Except.ok ()) :: rest ∧
      Exec (acordRun sch) localEnv (catchClosed K) w rest q w') ∨
    (∃ e, mid = [.call (.connect id) (Except.error e)] ∧ q = catchClosed (.throw e)) := by
  obtain ⟨r, rest, rfl, _, h⟩ := (Exec.of_call hq).mp h
  cases r with
  | ok u => exact .inl ⟨rest, rfl, h⟩
  | error e =>
    obtain ⟨rfl, rfl, _⟩ := (Exec.of_ended (by cases e <;> trivial)).mp h
    exact .inr ⟨e, rfl, rfl⟩

theorem exec_aioPush
    (h : Exec (acordRun sch) localEnv (catchClosed (Io.aioPush f >>= fun _ => K)) w mid q w') :
    (∃ rest, mid = .call (.aioPush f) Pushed.ok :: rest ∧
      Exec (acordRun sch) localEnv (catchClosed K) w rest q w') ∨
    (mid = [.call (.aioPush f) Pushed.closed] ∧ q = .ret false) := by
  obtain ⟨r, rest, rfl, hr, h⟩ := (Exec.of_call hq).mp h
  cases r with
  | ok => exact .inl ⟨rest, rfl, h⟩
  | closed =>
    obtain ⟨rfl, rfl, _⟩ := Exec.of_ret.mp h
    exact .inr ⟨rfl, rfl⟩
  | detached => exact absurd rfl hr

theorem exec_aioPoll
    (h : Exec (acordRun sch) localEnv (catchClosed (Io.aioPoll >>= F)) w mid q w') :
    (∃ g rest, mid = .call .aioPoll (Polled.frame g) :: rest ∧
      Exec (acordRun sch) localEnv (catchClosed (F g)) w rest q w') ∨
    (mid = [.call .aioPoll Polled.closed] ∧ q = .ret false) := by
  obtain ⟨r, rest, rfl, hr, h⟩ := (Exec.of_call hq).mp h
  cases r with
  | frame g => exact .inl ⟨g, rest, rfl, h⟩
  | closed =>
    obtain ⟨rfl, rfl, _⟩ := Exec.of_ret.mp h
    exact .inr ⟨rfl, rfl⟩
  | detached => exact absurd rfl hr

end

def Replied (mid : List (LocalEvent sch)) (q : LocalProg Bool) (f : Ac.Frame) : Prop :=
  sent mid = [f] ∧ (q = .ret true ∨ q = .ret false ∧ ClientClosed mid)

theorem serve_unknown {f : Ac.Frame} (h1 : f.op ≠ Schema.opMakeAssetsAvailable)
    (h2 : f.op ≠ Schema.opLoadProvider) (hw : w.detached = false) (hq : q.Ended)
    (h : Exec (acordRun sch) localEnv (catchClosed (serve sch (.frame f))) w mid q w') :
    amgrReply mid = none ∧ Replied mid q (unknownOp f.op) := by
  simp only [serve, Polled.result, Prog.pure_eq, Prog.ret_bind, h1, h2, ↓reduceIte] at h
  rcases exec_push hq hw h with ⟨rest, rfl, hk⟩ | ⟨rfl, rfl⟩
  · obtain ⟨rfl, rfl, _⟩ := Exec.of_ret.mp hk
    exact ⟨rfl, rfl, .inl rfl⟩
  · exact ⟨rfl, rfl, .inr ⟨rfl, _, List.mem_singleton_self _⟩⟩

theorem serve_assets {f : Ac.Frame} (h1 : f.op = Schema.opMakeAssetsAvailable)
    (hw : w.detached = false) (hq : q.Ended)
    (h : Exec (acordRun sch) localEnv (catchClosed (serve sch (.frame f))) w mid q w') :
    (sent mid = [] ∧ ((∀ us, sch.urls f.data ≠ .ok us) ∨ amgrReply mid = none)) ∨
    (∃ us g, sch.urls f.data = .ok us ∧ amgrReply mid = some g ∧
      Replied mid q { g with op := Schema.opMakeAssetsAvailable }) := by
  simp only [serve, Polled.result, Prog.pure_eq, Prog.ret_bind, h1, ↓reduceIte] at h
  cases hu : sch.urls f.data with
  | error e =>
    rw [hu, Prog.ofExcept_error, Prog.throw_bind] at h
    obtain ⟨rfl, _, _⟩ := (Exec.of_ended (by cases e <;> trivial)).mp h
    exact .inl ⟨rfl, .inl nofun⟩
  | ok us =>
    rw [hu, Prog.ofExcept_ok, Prog.ret_bind] at h
    simp only [acordMakeAssetsAvailable, Prog.bind_assoc] at h
    rcases exec_connect hq h with ⟨_, rfl, hc⟩ | ⟨e, rfl, _⟩
    · rcases exec_aioPoll hq hc with ⟨state, _, rfl, hs⟩ | ⟨rfl, _⟩
      · rcases exec_aioPush hq hs with ⟨_, rfl, ha⟩ | ⟨rfl, _⟩
        · rcases exec_aioPoll hq ha with ⟨g, _, rfl, hg⟩ | ⟨rfl, _⟩
          · right
            refine ⟨us, g, rfl, ?_⟩
            rcases exec_push hq hw hg with ⟨_, rfl, hk⟩ | ⟨rfl, rfl⟩
            · obtain ⟨rfl, rfl, _⟩ := Exec.of_ret.mp hk
              exact ⟨rfl, rfl, .inl rfl⟩
            · exact ⟨rfl, rfl, .inr ⟨rfl, { g with op := Schema.opMakeAssetsAvailable }, by simp⟩⟩
          · exact .inl ⟨rfl, .inr rfl⟩
        · exact .inl ⟨rfl, .inr rfl⟩
      · exact .inl ⟨rfl, .inr rfl⟩
    · exact .inl ⟨rfl, .inr rfl⟩

def RightReply (mid : List (LocalEvent sch)) (r : Ac.Frame) : Prop :=
  match amgrReply mid with
  | some g =>
    if g.op = opError then r.op = opError else r = { g with op := Schema.opMakeAssetsAvailable }
  | none => r.op = opError

def Answered (mid : List (LocalEvent sch)) (q : LocalProg Bool) : Prop :=
  ∃ r, RightReply mid r ∧ Replied mid q r

/-- The operation is unknown, or its data is a list of strings and the asset manager answers
with something other than an error. -/
def Serviceable (f : Ac.Frame) (mid : List (LocalEvent sch)) : Prop :=
  f.op = Schema.opMakeAssetsAvailable →
    (∃ us, sch.urls f.data = .ok us) ∧ ∃ g, amgrReply mid = some g ∧ g.op ≠ opError

theorem answered_iff {f : Ac.Frame} (hop : f.op ≠ Schema.opLoadProvider) (hw : w.detached = false)
    (hq : q.Ended)
    (h : Exec (acordRun sch) localEnv (catchClosed (serve sch (.frame f))) w mid q w') :
    Answered mid q ↔ Serviceable f mid := by
  by_cases h1 : f.op = Schema.opMakeAssetsAvailable
  · rcases serve_assets h1 hw hq h with ⟨hn, hbad⟩ | ⟨us, g, hu, hg, hr⟩
    · constructor
      · rintro ⟨r, _, hs, _⟩
        simp [hn] at hs
      · intro hs
        obtain ⟨⟨us, hu⟩, g, hg, _⟩ := hs h1
        rcases hbad with hbad | hbad
        · exact absurd hu (hbad us)
        · simp [hbad] at hg
    · constructor
      · rintro ⟨r, hright, hs, _⟩
        refine fun _ => ⟨⟨us, hu⟩, g, hg, fun he => ?_⟩
        obtain rfl : { g with op := Schema.opMakeAssetsAvailable } = r := by simpa [hr.1] using hs
        simp only [RightReply, hg, he, ↓reduceIte] at hright
        exact absurd hright (by decide)
      · intro hs
        obtain ⟨_, g', hg', hne⟩ := hs h1
        obtain rfl : g = g' := Option.some.inj (hg.symm.trans hg')
        exact ⟨_, by simp [RightReply, hg, hne], hr⟩
  · obtain ⟨hn, hr⟩ := serve_unknown h1 hop hw hq h
    have hright : RightReply mid (unknownOp f.op) := by simp [RightReply, hn, unknownOp, errorFrame]
    exact ⟨fun _ he => absurd he h1, fun _ => ⟨_, hright, hr⟩⟩

theorem pushed_within (r : Pushed) : r.result.Within 0 := by
  cases r <;> trivial

theorem polled_within (r : Polled) : r.result.Within 0 := by
  cases r <;> trivial

theorem ofExcept_within {α : Type} (r : Except Exn α) :
    (Prog.ofExcept r : LocalProg α).Within 0 := by
  cases r <;> trivial

theorem push_within (f : Ac.Frame) : (Io.push f).Within 1 := pushed_within

theorem aioPush_within (f : Ac.Frame) : (Io.aioPush f).Within 1 := pushed_within

theorem aioPoll_within : Io.aioPoll.Within 1 := polled_within

theorem connect_within (id : Str) : (Io.connect id).Within 1 := ofExcept_within

theorem detach_within : Io.detach.Within 1 := fun _ => trivial

theorem attach_within (name : Str) : (Io.attach name).Within 1 := ofExcept_within

theorem acordMakeAssetsAvailable_within (urls : List Str) :
    (acordMakeAssetsAvailable urls).Within 5 :=
  (connect_within _).bind fun _ => aioPoll_within.bind fun _ => (aioPush_within _).bind fun _ =>
    aioPoll_within.bind fun _ => push_within _

theorem serve_within (sch : SchemaLib) (p : Polled) : (catchClosed (serve sch p)).Within 5 := by
  have hret : ∀ b : Bool, (pure b : LocalProg Bool).Within 0 := fun _ => trivial
  refine Prog.Within.tryCatch (m := 5) (n := 0)
    (Prog.Within.bind (m := 0) (n := 5) (polled_within p) fun f => ?_)
    (fun e => by cases e <;> trivial)
  split
  · exact Prog.Within.bind (m := 0) (n := 5) (ofExcept_within _) fun us =>
      (acordMakeAssetsAvailable_within us).bind fun _ => hret true
  · split
    · refine Prog.Within.bind (m := 3) (n := 2)
        (Prog.Within.tryCatch (m := 3) (n := 0) ?_ fun _ => trivial) ?_
      · exact Prog.Within.bind (m := 0) (n := 3) (ofExcept_within _) fun name =>
          (push_within _).bind fun _ => detach_within.bind fun _ =>
            (attach_within name).bind fun _ => Prog.within_ret none 0
      · rintro (_ | error)
        · trivial
        · exact ((push_within _).bind fun _ => hret true).mono (by decide)
    · exact ((push_within _).bind fun _ => hret true).mono (by decide)

theorem localEnv_answers (w : LocalEnv) (op : LocalOp) : ∃ r, localEnv.allow w op r := by
  cases op with
  | push f =>
    cases hd : w.detached with
    | false => exact ⟨Pushed.closed, hd⟩
    | true => exact ⟨Pushed.detached, hd⟩
  | poll =>
    cases hd : w.detached with
    | false => exact ⟨Polled.closed, hd⟩
    | true => exact ⟨Polled.detached, hd⟩
  | connect id => exact ⟨Except.ok (), trivial⟩
  | aioPush f => exact ⟨Pushed.closed, nofun⟩
  | aioPoll => exact ⟨Polled.closed, nofun⟩
  | detach => exact ⟨(), trivial⟩
  | attach name => exact ⟨Except.ok (), trivial⟩

theorem localSession_step {s : Server localEffects Exn LocalEnv} (h : ¬ s.prog.Ended) :
    ∃ e t, (localSession sch).step s e t := by
  obtain ⟨p, w⟩ := s
  cases p with
  | call op k =>
    obtain ⟨r, hr⟩ := localEnv_answers w op
    exact ⟨_, _, .call hr⟩
  | _ => exact absurd trivial h

theorem request_progress {pre : List (LocalEvent sch)} {p : Polled}
    {s : Server localEffects Exn LocalEnv} (h : (localSession sch).Run tr s)
    (hl : LastAt Event.isRequest tr pre (.request p) mid) (hn : ¬ s.prog.Ended) :
    mid.length < 5 ∧ ∃ e t, (localSession sch).step s e t := by
  obtain ⟨w, _, he⟩ := Loop.run_handler h hl
  exact ⟨(he.within (serve_within sch _)).resolve_left hn, localSession_step hn⟩

/-- In every run, the last request that does not load a provider is still being served, with a
step to take and at most five in all; or it is served, and then it was answered by exactly one
frame, the right one, and the session awaits the next request unless the client closed,
precisely when the request was serviceable. -/
theorem request_one_reply {pre : List (LocalEvent sch)} {f : Ac.Frame}
    {s : Server localEffects Exn LocalEnv} (h : (localSession sch).Run tr s)
    (hl : LastAt Event.isRequest tr pre (.request (Polled.frame f)) mid)
    (hop : f.op ≠ Schema.opLoadProvider) :
    (¬ s.prog.Ended → mid.length < 5 ∧ ∃ e t, (localSession sch).step s e t) ∧
    (s.prog.Ended → (Answered mid s.prog ↔ Serviceable f mid)) := by
  obtain ⟨w, hw, he⟩ := Loop.run_handler h hl
  exact ⟨request_progress h hl, fun hq => answered_iff hop hw hq he⟩

def sampleSchema : SchemaLib where
  stateChange id := ⟨lit "#", .str id⟩
  error := errorFrame
  urls
    | .array [.str u] => .ok [u]
    | _ => .error (.error (lit "type_error.302"))
  provider
    | .object [(_, .str name)] => .ok name
    | _ => .error (.error (lit "type_error.302"))

def sampleStart : List (LocalEvent sampleSchema) :=
  [.call (.push (sampleSchema.stateChange Schema.id)) Pushed.ok]

theorem sample_started :
    (localSession sampleSchema).Run sampleStart ⟨.ret true, ⟨false, false⟩⟩ :=
  Loop.run_call (L := acordRun sampleSchema) (.start rfl) Pushed.ok ⟨rfl, rfl⟩

def assetRequest : Ac.Frame := ⟨Schema.opMakeAssetsAvailable, .strings [lit "h/m"]⟩

def assetReply : Ac.Frame := ⟨Schema.opMakeAssetsAvailable, .strings [lit "/a/m"]⟩

def assetCalls : List (LocalEvent sampleSchema) :=
  [.call (.connect Amgr.interfaceId) (Except.ok ()),
    .call .aioPoll (Polled.frame ⟨lit "state", .str Amgr.stateId⟩),
    .call (.aioPush ⟨Amgr.opMakeAssetsAvailable, .strings [lit "h/m"]⟩) Pushed.ok,
    .call .aioPoll (Polled.frame ⟨lit "assets", .strings [lit "/a/m"]⟩),
    .call (.push assetReply) Pushed.ok]

theorem request_one_reply_two :
    ∃ (tr mid : List (LocalEvent sampleSchema)) (s t : Server localEffects Exn LocalEnv),
      (localSession sampleSchema).Run tr s ∧ sent assetCalls = [assetReply] ∧
      Answered assetCalls s.prog ∧
      (localSession sampleSchema).Run (tr ++ .request (Polled.frame hiFrame) :: mid) t ∧
      sent mid = [unknownOp hiFrame.op] ∧ Answered mid t.prog := by
  have h1 := Loop.run_request sample_started (Polled.frame assetRequest) rfl
  have h2 := Loop.run_call h1 (Except.ok ()) trivial
  have h3 := Loop.run_call h2 (Polled.frame ⟨lit "state", .str Amgr.stateId⟩) nofun
  have h4 := Loop.run_call h3 Pushed.ok nofun
  have h5 := Loop.run_call h4 (Polled.frame ⟨lit "assets", .strings [lit "/a/m"]⟩) nofun
  have h6 := Loop.run_call h5 Pushed.ok ⟨rfl, rfl⟩
  have h7 := Loop.run_request h6 (Polled.frame hiFrame) rfl
  have h8 := Loop.run_call h7 Pushed.ok ⟨rfl, rfl⟩
  have hl : LastAt Event.isRequest _ sampleStart (.request (Polled.frame assetRequest))
      assetCalls := ⟨rfl, trivial, by simp [assetCalls, Event.isRequest]⟩
  have hl' : LastAt Event.isRequest _ (sampleStart ++ .request (Polled.frame assetRequest) ::
      assetCalls) (.request (Polled.frame hiFrame))
      [.call (LocalOp.push (unknownOp hiFrame.op)) Pushed.ok] :=
    ⟨rfl, trivial, by simp [Event.isRequest]⟩
  have hserved := (request_one_reply h6 hl (by decide)).2 trivial
  have hunknown := (request_one_reply h8 hl' (by decide)).2 trivial
  refine ⟨_, _, _, _, h6, rfl, hserved.mpr fun _ => ?_, h8, rfl, hunknown.mpr fun he => ?_⟩
  · exact ⟨⟨_, rfl⟩, _, rfl, by decide⟩
  · exact absurd he (by decide)

/-- A request whose data is no list ends the session by an exception, with nothing replied. -/
theorem request_unanswered :
    ∃ (tr pre mid : List (LocalEvent sampleSchema)) (s : Server localEffects Exn LocalEnv),
      (localSession sampleSchema).Run tr s ∧
      LastAt Event.isRequest tr pre
        (.request (Polled.frame ⟨Schema.opMakeAssetsAvailable, .integer 5⟩)) mid ∧
      s.prog = .throw (.error (lit "type_error.302")) ∧ sent mid = [] ∧ ¬ Answered mid s.prog := by
  have h1 := Loop.run_request sample_started
    (Polled.frame ⟨Schema.opMakeAssetsAvailable, .integer 5⟩) rfl
  refine ⟨_, _, [], _, h1, ⟨rfl, trivial, nofun⟩, rfl, rfl, ?_⟩
  rintro ⟨r, _, hs, _⟩
  exact List.cons_ne_nil _ _ hs.symm

end Acord
