import Acord.LocalReplies

/-! Loading a provider: what the client is told, who owns its streams, and whether the endpoint is
used after they were moved out. -/

namespace Acord
open Ac RequestLoop Transition

variable {sch : SchemaLib} {w w' : LocalEnv} {mid tr : List (LocalEvent sch)} {q : LocalProg Bool}

def loadedFrame : Ac.Frame := ⟨Schema.opLoadProvider, .null⟩

def Attached (mid : List (LocalEvent sch)) : Prop :=
  ∃ name, Event.call (LocalOp.attach name) (Except.ok ()) ∈ mid

def AttachFailed (mid : List (LocalEvent sch)) : Prop :=
  ∃ name e, Event.call (LocalOp.attach name) (Except.error e) ∈ mid

def OnDetached : LocalEvent sch → Prop
  | .request .detached => True
  | .call (.push _) .detached => True
  | _ => False

theorem serve_loadProvider {f : Ac.Frame} (h1 : f.op = Schema.opLoadProvider)
    (hw : w.detached = false) (hq : q.Ended)
    (h : Exec (acordRun sch) localEnv (catchClosed (serve sch (.frame f))) w mid q w') :
    (∃ e, mid = [.call (.push (errorFrame e)) Pushed.ok] ∧ q = .ret true ∧ w' = w) ∨
    (∃ e, mid = [.call (.push (errorFrame e)) Pushed.closed] ∧ q = .ret false) ∨
    (∃ e, mid = [.call (.push loadedFrame) Pushed.closed,
      .call (.push (errorFrame e)) Pushed.closed] ∧ q = .ret false) ∨
    (∃ name, mid = [.call (.push loadedFrame) Pushed.ok, .call .detach (),
      .call (.attach name) (Except.ok ())] ∧ q = .ret false) ∨
    (∃ name e e', mid = [.call (.push loadedFrame) Pushed.ok, .call .detach (),
      .call (.attach name) (Except.error e), .call (.push (errorFrame e')) Pushed.detached] ∧
      q = .crash) := by
  have h2 : f.op ≠ Schema.opMakeAssetsAvailable := h1 ▸ by decide
  simp only [serve, Polled.result, Prog.pure_eq, Prog.ret_bind, if_neg h2, if_pos h1] at h
  cases hp : sch.provider f.data with
  | error e =>
    rw [hp] at h
    rcases exec_push hq hw h with ⟨rest, rfl, hk⟩ | ⟨rfl, rfl⟩
    · obtain ⟨rfl, rfl, rfl⟩ := Exec.of_ret.mp hk
      exact .inl ⟨_, rfl, rfl, rfl⟩
    · exact .inr (.inl ⟨_, rfl, rfl⟩)
  | ok name =>
    rw [hp] at h
    obtain ⟨r, rest, rfl, hr, hk⟩ := (Exec.of_call hq).mp h
    cases r with
    | ok =>
      obtain ⟨_, rest, rfl, _, hd⟩ := (Exec.of_call hq).mp hk
      obtain ⟨r, rest, rfl, _, ha⟩ := (Exec.of_call hq).mp hd
      cases r with
      | ok u =>
        obtain ⟨rfl, rfl, _⟩ := Exec.of_ret.mp ha
        exact .inr (.inr (.inr (.inl ⟨name, rfl, rfl⟩)))
      | error e =>
        -- the streams are gone, so the error frame goes to an endpoint without any
        obtain ⟨r, rest, rfl, hr, he⟩ := (Exec.of_call hq).mp ha
        cases r with
        | detached =>
          obtain ⟨rfl, rfl, _⟩ := Exec.of_crash.mp he
          exact .inr (.inr (.inr (.inr ⟨name, e, _, rfl, rfl⟩)))
        | ok => exact absurd hr.1 (by simp [localEnv, LocalEnv.next])
        | closed => exact absurd hr (by simp [localEnv, LocalEnv.next, LocalEnv.allow])
    | closed =>
      obtain ⟨r, rest, rfl, hr, he⟩ := (Exec.of_call hq).mp hk
      cases r with
      | closed =>
        obtain ⟨rfl, rfl, _⟩ := Exec.of_ret.mp he
        exact .inr (.inr (.inl ⟨_, rfl, rfl⟩))
      | ok => exact absurd hr.2 (by simp [localEnv, LocalEnv.next])
      | detached => exact absurd hr (by simp [localEnv, LocalEnv.next, LocalEnv.allow, hw])
    | detached => exact absurd (hw.symm.trans hr) (by decide)

/-- The client is told the provider was loaded exactly when it took over the streams, and
otherwise gets one error and stays served by a session that owns its streams. -/
structure Atomic (mid : List (LocalEvent sch)) (s : Server localEffects Exn LocalEnv) : Prop where
  told : loadedFrame ∈ accepted mid ↔ Attached mid
  attached : Attached mid → accepted mid = [loadedFrame]
  refused : ¬ Attached mid →
    (∃ e, accepted mid = [errorFrame e]) ∧ s.env.detached = false ∧ s.prog = .ret true
  intact : ∀ e ∈ mid, ¬ OnDetached e

theorem loadedFrame_ne (e : Str) : loadedFrame ≠ errorFrame e := by
  intro h
  have hop : Schema.opLoadProvider = opError := congrArg Ac.Frame.op h
  exact absurd hop (by decide)

theorem atomic_iff {f : Ac.Frame} {s : Server localEffects Exn LocalEnv}
    (h1 : f.op = Schema.opLoadProvider) (hw : w.detached = false) (hq : s.prog.Ended)
    (h : Exec (acordRun sch) localEnv (catchClosed (serve sch (.frame f))) w mid s.prog s.env) :
    Atomic mid s ↔ ¬ ClientClosed mid ∧ ¬ AttachFailed mid := by
  rcases serve_loadProvider h1 hw hq h with
    ⟨e, rfl, hp, he⟩ | ⟨e, rfl, _⟩ | ⟨e, rfl, _⟩ | ⟨name, rfl, _⟩ | ⟨name, e, e', rfl, _⟩
  · refine iff_of_true ⟨?_, ?_, fun _ => ⟨⟨e, rfl⟩, he ▸ hw, hp⟩, ?_⟩ ⟨?_, ?_⟩
    · simp [accepted, acceptedFrame, Attached, loadedFrame_ne]
    · simp [Attached]
    · simp [OnDetached]
    · simp [ClientClosed]
    · simp [AttachFailed]
  · refine iff_of_false (fun ha => ?_) (fun hc => hc.1 ⟨_, List.mem_singleton_self _⟩)
    obtain ⟨⟨e', he⟩, _⟩ := ha.refused (by simp [Attached])
    exact List.cons_ne_nil _ _ he.symm
  · refine iff_of_false (fun ha => ?_) (fun hc => hc.1 ⟨_, List.mem_cons_self⟩)
    obtain ⟨⟨e', he⟩, _⟩ := ha.refused (by simp [Attached])
    exact List.cons_ne_nil _ _ he.symm
  · have hat : Attached [.call (.push loadedFrame) Pushed.ok, .call .detach (),
        Event.call (L := acordRun sch) (.attach name) (Except.ok ())] := ⟨name, by simp⟩
    refine iff_of_true ⟨?_, fun _ => rfl, fun hn => absurd hat hn, ?_⟩ ⟨?_, ?_⟩
    · exact iff_of_true (by simp [accepted, acceptedFrame]) hat
    · simp [OnDetached]
    · simp [ClientClosed]
    · simp [AttachFailed]
  · refine iff_of_false (fun ha => ?_) (fun hc => hc.2 ⟨name, e, by simp⟩)
    simpa [OnDetached] using ha.intact

section
variable {P : LocalOp → Prop}

theorem push_all (f : Ac.Frame) (h : P (.push f)) : (Io.push f).All P :=
  ⟨h, fun r => by cases r <;> trivial⟩

theorem aioPush_all (f : Ac.Frame) (h : P (.aioPush f)) : (Io.aioPush f).All P :=
  ⟨h, fun r => by cases r <;> trivial⟩

theorem aioPoll_all (h : P .aioPoll) : Io.aioPoll.All P := ⟨h, fun r => by cases r <;> trivial⟩

theorem connect_all (id : Str) (h : P (.connect id)) : (Io.connect id).All P :=
  ⟨h, fun r => by cases r <;> trivial⟩

theorem acordMakeAssetsAvailable_all (urls : List Str) (hc : ∀ id, P (.connect id))
    (hpoll : P .aioPoll) (hpush : ∀ f, P (.aioPush f)) (hf : ∀ f, P (.push f)) :
    (acordMakeAssetsAvailable urls).All P :=
  (connect_all _ (hc _)).bind fun _ => (aioPoll_all hpoll).bind fun _ =>
    (aioPush_all _ (hpush _)).bind fun _ => (aioPoll_all hpoll).bind fun _ => push_all _ (hf _)

theorem catchClosed_all {p : LocalProg Bool} (h : p.All P) : (catchClosed p).All P :=
  h.tryCatch fun e => by cases e <;> trivial

end

def Transferred : LocalProg Bool → Prop
  | .call (.attach _) k => k (Except.ok ()) = .ret false
  | .ret b => b = false
  | _ => False

def Owns : LocalProg Bool → Prop
  | .call .detach k => Transferred (k ())
  | .call _ k => ∀ r, Owns (k r)
  | _ => True

abbrev Keeps {α : Type} (p : LocalProg α) : Prop := p.All (· ≠ LocalOp.detach)

theorem Keeps.owns {p : LocalProg Bool} (h : Keeps p) : Owns p := by
  induction p with
  | call op k ih =>
    cases op with
    | detach => exact absurd rfl h.1
    | _ => exact fun r => ih r (h.2 r)
  | _ => trivial

theorem push_keeps (f : Ac.Frame) : Keeps (Io.push f) := push_all f LocalOp.noConfusion

theorem acordMakeAssetsAvailable_keeps (urls : List Str) : Keeps (acordMakeAssetsAvailable urls) :=
  acordMakeAssetsAvailable_all urls (fun _ => LocalOp.noConfusion) LocalOp.noConfusion
    (fun _ => LocalOp.noConfusion) fun _ => LocalOp.noConfusion

theorem catchClosed_keeps {p : LocalProg Bool} (h : Keeps p) : Keeps (catchClosed p) :=
  catchClosed_all h

theorem pushed_owns (f : Ac.Frame) : Owns (catchClosed (Io.push f >>= fun _ => .ret true)) :=
  (catchClosed_keeps ((push_keeps f).bind (f := fun _ => .ret true) fun _ => trivial)).owns

theorem serve_owns (sch : SchemaLib) (p : Polled) : Owns (catchClosed (serve sch p)) := by
  cases p with
  | closed => trivial
  | detached => trivial
  | frame f =>
    simp only [serve, Polled.result, Prog.pure_eq, Prog.ret_bind]
    split
    · refine (catchClosed_keeps (Prog.All.bind ?_ fun us => ?_)).owns
      · cases sch.urls f.data <;> trivial
      · exact (acordMakeAssetsAvailable_keeps us).bind fun _ => trivial
    · split
      · cases sch.provider f.data with
        | error e => exact pushed_owns _
        | ok name =>
          -- accepted, the reply is followed by `detach` and `attach` only
          rintro (_ | _ | _)
          · exact rfl
          · exact pushed_owns _
          · trivial
      · exact pushed_owns _

/-- Where no provider refused the streams, the endpoint was used only while it had them, and the
coroutine owns them or has handed them on. -/
def Custody (tr : List (LocalEvent sch)) (s : Server localEffects Exn LocalEnv) : Prop :=
  ¬ AttachFailed tr → (∀ e ∈ tr, ¬ OnDetached e) ∧
    (s.env.detached = false ∧ Owns s.prog ∨ Transferred s.prog)

theorem step_custody {s t : Server localEffects Exn LocalEnv} {e : LocalEvent sch}
    (hc : Custody tr s) (hs : (localSession sch).step s e t) : Custody (tr ++ [e]) t := by
  intro hok
  have hok' : ¬ AttachFailed tr := fun ⟨name, x, hx⟩ => hok ⟨name, x, List.mem_append_left _ hx⟩
  obtain ⟨hunused, howns⟩ := hc hok'
  have hall : ∀ {P : LocalEvent sch → Prop}, (∀ e ∈ tr, P e) → P e → ∀ e' ∈ tr ++ [e], P e' := by
    intro P htr he e' hm
    rcases List.mem_append.mp hm with hm | hm
    · exact htr e' hm
    · exact List.mem_singleton.mp hm ▸ he
  cases hs with
  | @request w r h =>
    rcases howns with ⟨hw, _⟩ | ht
    · refine ⟨hall hunused ?_, .inl ⟨?_, serve_owns sch r⟩⟩
      · cases r with
        | detached => exact absurd (hw.symm.trans h) (by decide)
        | _ => exact id
      · cases r <;> exact hw
    · exact absurd ht (by simp [Transferred])
  | @call op k w r h =>
    rcases howns with ⟨hw, ho⟩ | ht
    · cases op with
      | push f =>
        refine ⟨hall hunused ?_, .inl ⟨?_, ho r⟩⟩
        · cases r with
          | detached => exact absurd (hw.symm.trans h) (by decide)
          | _ => exact id
        · cases r <;> exact hw
      | poll =>
        refine ⟨hall hunused id, .inl ⟨?_, ho r⟩⟩
        cases r <;> exact hw
      -- from here on nothing but `attach` is left to be called
      | detach => exact ⟨hall hunused id, .inr ho⟩
      | _ => exact ⟨hall hunused id, .inl ⟨hw, ho r⟩⟩
    · cases op with
      | attach name =>
        cases r with
        | ok u => exact ⟨hall hunused id, .inr (ht ▸ rfl)⟩
        | error x => exact absurd ⟨name, x, List.mem_append_right _ (List.mem_singleton_self _)⟩ hok
      | _ => exact ht.elim

theorem localSession_custody {s : Server localEffects Exn LocalEnv}
    (h : (localSession sch).Run tr s) : Custody tr s := by
  apply h.trace_invariant (I := Custody)
  · rintro s rfl _
    exact ⟨nofun, .inl ⟨rfl, pushed_owns _⟩⟩
  · intro tr s a t hc hs
    exact step_custody hc hs

/-- In every run, the last request to load a provider is still being served, with a step to take,
or it is served, and then it was atomic exactly when no push of it found the client's stream
closed and the provider did not refuse the streams; and in every run where no provider ever
did, the endpoint is not used without its streams. -/
theorem load_provider_atomic (sch : SchemaLib) :
    (∀ tr pre mid f s, (localSession sch).Run tr s →
      LastAt Event.isRequest tr pre (.request (Polled.frame f)) mid → f.op = Schema.opLoadProvider →
      (¬ s.prog.Ended → mid.length < 5 ∧ ∃ e t, (localSession sch).step s e t) ∧
      (s.prog.Ended → (Atomic mid s ↔ ¬ ClientClosed mid ∧ ¬ AttachFailed mid))) ∧
    (∀ tr s, (localSession sch).Run tr s → ¬ AttachFailed tr → ∀ e ∈ tr, ¬ OnDetached e) := by
  refine ⟨fun tr pre mid f s h hl hop => ⟨request_progress h hl, fun hend => ?_⟩,
    fun tr s h hok => (localSession_custody h hok).1⟩
  obtain ⟨w, hw, he⟩ := Loop.run_handler h hl
  exact atomic_iff hop hw hend he

def nopeFrame : Ac.Frame := ⟨Schema.opLoadProvider, .object [(lit "name", .str (lit "nope"))]⟩

/-- The client that sends it is told that the provider was loaded. -/
theorem load_provider_not_atomic :
    ∃ (tr pre mid : List (LocalEvent sampleSchema)) (s : Server localEffects Exn LocalEnv),
      (localSession sampleSchema).Run tr s ∧
      LastAt Event.isRequest tr pre (.request (Polled.frame nopeFrame)) mid ∧
      s.prog = .crash ∧ accepted mid = [loadedFrame] ∧ ¬ Attached mid ∧ ¬ Atomic mid s := by
  have h1 := Loop.run_request sample_started (Polled.frame nopeFrame) rfl
  have h2 := Loop.run_call h1 Pushed.ok ⟨rfl, rfl⟩
  have h3 := Loop.run_call h2 () trivial
  have h4 := Loop.run_call h3 (Except.error (Exn.error (lit "not registered"))) trivial
  have h5 := Loop.run_call h4 Pushed.detached rfl
  have hl : LastAt Event.isRequest _ sampleStart
      (.request (Polled.frame nopeFrame)) [.call (LocalOp.push loadedFrame) Pushed.ok,
        .call LocalOp.detach (),
        .call (LocalOp.attach (lit "nope")) (Except.error (Exn.error (lit "not registered"))),
        .call (LocalOp.push (errorFrame (lit "not registered"))) Pushed.detached] :=
    ⟨rfl, trivial, by simp [Event.isRequest]⟩
  refine ⟨_, _, _, _, h5, hl, rfl, rfl, ?_, ?_⟩
  · simp [Attached]
  · intro ha
    exact ha.intact _ (List.mem_of_getLast? rfl) trivial

end Acord
