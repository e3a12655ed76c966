import Acord.App
import Acord.DaemonProgress

/-! The server at rest: it stops only when every client has been told all the replies to what it
wrote. -/

namespace Acord
open Ac Channels RequestLoop Transition AssetBackend

variable {ι : Type} [DecidableEq ι] {sch : SchemaLib} {lib : DictLib} {frames : FrameLib}
  {cap : Nat} {dir : AssetDir} {fs : Fs} {b c : AssetBackend ι sch} {k : ι} {e : LocalEvent sch}

/-! A coroutine that writes to the asset manager, or reads from it, is connected. -/

def Undialled (p : LocalProg Bool) : Prop :=
  Apart p ∨ ∃ id f, p = .call (.connect id) f ∧ ∀ e, (f (.error e)).Ended

theorem Undialled.ended {p : LocalProg Bool} (h : p.Ended) : Undialled p := by
  left
  cases p with
  | ret | throw | crash => trivial
  | call => exact h.elim

theorem serve_undialled (sch : SchemaLib) (p : Polled) : Undialled (catchClosed (serve sch p)) := by
  by_cases hf : ∃ f us, p = .frame f ∧ f.op = Schema.opMakeAssetsAvailable ∧ sch.urls f.data = .ok us
  · obtain ⟨f, us, rfl, hop, hu⟩ := hf
    simp only [serve, Polled.result, Prog.pure_eq, Prog.ret_bind, if_pos hop]
    rw [hu]
    exact .inr ⟨_, _, rfl, fun e => thrown_ended e⟩
  · exact .inl (serve_apart hf)

theorem Undialled.step {s q : Server localEffects Exn LocalEnv} (h : Undialled s.prog)
    (run : (localSession sch).step s e q) (he : ∀ id, e ≠ .call (.connect id) (Except.ok ())) :
    Undialled q.prog := by
  cases run with
  | request => exact serve_undialled sch _
  | @call op f w r hok =>
    rcases h with ⟨_, hrest⟩ | ⟨id, g, hcall, hend⟩
    · exact .inl (hrest r)
    · cases hcall
      cases r with
      | error x => exact .ended (hend x)
      | ok u => exact absurd rfl (he id)

def Connected (b : AssetBackend ι sch) : Prop := ∀ k, b.conn k = none → Undialled (b.coro k).prog

theorem Connected.step {a : BackendEvent ι sch} (h : Connected b)
    (hs : BackendStep frames sch b a c) : Connected c := by
  cases a with
  | service a =>
    obtain ⟨⟨h1, _, h3, _⟩, _⟩ := hs.service_same
    intro k hk
    rw [h1]
    exact h k (h3 ▸ hk)
  | client k e =>
    have hcalled : ∀ {c : AssetBackend ι sch} {s : Server localEffects Exn LocalEnv},
        (localSession sch).step (b.coro k) e s → Dials sch k b e c →
          ∀ k', c.conn k' = none → Undialled ((c.advance k e s).coro k').prog := by
      intro c s run io k' hk'
      show Undialled (Function.update c.coro k s k').prog
      by_cases hk : k' = k
      · subst hk
        rw [Function.update_self]
        have hdialled : ∀ id, e ≠ .call (.connect id) (Except.ok ()) := by
          rintro id rfl
          cases io with
          | connected =>
            rw [show (b.dial k').conn k' = some b.sessions from Function.update_self _ _ _] at hk'
            cases hk'
          | elsewhere apart => exact apart
        rcases io.moves with ⟨id, he, _⟩ | ⟨hconn, _⟩
        · exact absurd he (hdialled id)
        · exact (h k' (hconn ▸ hk')).step run hdialled
      · rw [Function.update_of_ne hk, io.same.1]
        rcases io.moves with ⟨_, _, rfl⟩ | ⟨hconn, _⟩
        · exact h k' ((Function.update_of_ne hk _ _).symm.trans hk')
        · exact h k' (hconn ▸ hk')
    cases hs with
    | called run io on => exact hcalled run io
    | @served c _ _ s run io through =>
      intro k' hk'
      obtain ⟨⟨h1, _, _⟩, h3, _⟩ := hangUp_fields (c.advance k e s) k
      rw [h1]
      rw [h3] at hk'
      by_cases hk : k' = k
      · subst hk
        show Undialled (Function.update c.coro k' s k').prog
        rw [Function.update_self]
        exact .ended through
      · rw [Function.update_of_ne hk] at hk'
        exact hcalled run io k' hk'

theorem backend_connected {tr : List (BackendEvent ι sch)}
    (h : (assetBackend ι frames sch cap dir fs).Run tr b) : Connected b := by
  refine h.invariant (I := Connected) ?_ fun b a c hb hs => hb.step hs
  rintro b rfl k _
  exact .inl (start_apart sch)

/-! What keeps the server going. -/

def AppEvent.outer : AppEvent ι sch → Prop
  | .opened _ => True
  | .coroutine _ _ => False
  | .connection _ e => e.outer
  | .asset _ => False

def App.Quiet (lib : DictLib) (frames : FrameLib) (a : App ι sch) : Prop :=
  ∀ x a', AppStep lib frames sch a x a' → x.outer

theorem app_backend {a : App ι sch} {tr : List (AppEvent ι sch)}
    (h : (app ι lib frames sch cap dir fs).Run tr a) :
    AppInv lib frames cap dir fs AnyOutcomes a := by
  apply app_inv (h.guard_of _)
  intro a x
  cases x with
  | asset e => exact polledWith_any a.backend.service e
  | opened | coroutine | connection => trivial

section
variable {s q : Server localEffects Exn LocalEnv} {op : LocalOp} {f : op.Res → LocalProg Bool}
  {w : LocalEnv} {r : op.Res}

theorem call_prog (run : (localSession sch).step s (.call op r) q) :
    ∃ f, s = ⟨.call op f, s.env⟩ := by
  cases run
  exact ⟨_, rfl⟩

theorem call_event (hs : s = ⟨.call op f, w⟩) (run : (localSession sch).step s e q) :
    ∃ r, e = .call op r := by
  subst hs
  cases run
  exact ⟨_, rfl⟩

theorem call_anew (hs : s = ⟨.call op f, w⟩) (hr : localEnv.allow w op r) :
    (localSession sch).step s (.call op r) ⟨f r, localEnv.next w op r⟩ := by
  subst hs
  exact .call hr

end

theorem coroutine_moves {a : App ι sch} {tr : List (AppEvent ι sch)} {d d' : Daemon sch}
    (hcap : 0 < cap) (h : (app ι lib frames sch cap dir fs).Run tr a) (hk : a.conns k = some d)
    (hs : DaemonStep lib sch d (.session e) d') :
    ∃ x a', AppStep lib frames sch a x a' ∧ ¬ x.outer := by
  have happ := app_backend h
  obtain ⟨tr', hbackend⟩ := happ.backend
  have hrun := hbackend.of_guard
  have hag := happ.agrees k
  rw [hk] at hag
  obtain ⟨hcoro, _⟩ := hag
  have hcall : ∀ {e d' s c}, DaemonStep lib sch d (.session e) d' →
      (localSession sch).step (a.backend.coro k) e s → Dials sch k a.backend e c →
      ∃ x a', AppStep lib frames sch a x a' ∧ ¬ x.outer := by
    intro e d' s c hs run io
    obtain ⟨c', call⟩ := client_moves run io
    exact ⟨_, _, .coroutine hk hs call, id⟩
  obtain ⟨I, G, hinv⟩ := backend_any hrun
  have hcaps := backend_caps hcap hrun
  have hlinked : ¬ Undialled (a.backend.coro k).prog → ∃ i, a.backend.conn k = some i := by
    intro hu
    exact Option.ne_none_iff_exists'.mp fun hn => hu (backend_connected hrun k hn)
  have helse : ∀ {e}, DaemonStep lib sch d (.session e) d' → LocalEvent.Elsewhere e →
      ∃ x a', AppStep lib frames sch a x a' ∧ ¬ x.outer := by
    intro e hs apart
    exact hcall hs (hcoro ▸ (step_session hs).1) (.elsewhere apart)
  cases e with
  | request p => exact helse hs trivial
  | call op r =>
    obtain ⟨f, hprog⟩ := call_prog (step_session hs).1
    cases op with
    | push | poll | detach | attach => exact helse hs trivial
    | connect id =>
      have run : (localSession sch).step d.session (.call (.connect id) (Except.ok ())) _ :=
        call_anew hprog trivial
      exact hcall (.session run .connect) (hcoro ▸ run) .connected
    | aioPush g =>
      have hs : a.backend.coro k = ⟨.call (.aioPush g) f, d.session.env⟩ := hcoro.trans hprog
      obtain ⟨i, hi⟩ := hlinked (hs ▸ fun hu => by
        rcases hu with ⟨ha, _⟩ | ⟨_, _, hc, _⟩
        · exact ha trivial
        · cases hc)
      obtain ⟨e, s, c, run, io⟩ := write_moves hinv (hcaps i).1 hi hs
      obtain ⟨r', rfl⟩ := call_event hs run
      exact hcall (.session (hcoro ▸ run) .aioPush) run io
    | aioPoll =>
      have hs : a.backend.coro k = ⟨.call .aioPoll f, d.session.env⟩ := hcoro.trans hprog
      obtain ⟨i, hi⟩ := hlinked (hs ▸ fun hu => by
        rcases hu with ⟨ha, _⟩ | ⟨_, _, hc, _⟩
        · exact ha trivial
        · cases hc)
      rcases read_moves hinv (hcaps i).2 hi hs with ⟨e, s, c, run, io⟩ | ⟨x, c, call, _⟩
      · obtain ⟨r', rfl⟩ := call_event hs run
        exact hcall (.session (hcoro ▸ run) .aioPoll) run io
      · exact ⟨_, _, .asset call, id⟩

theorem App.Quiet.settled {a : App ι sch} {d : Daemon sch} (hq : a.Quiet lib frames)
    (hk : a.conns k = some d) : d.Settled lib :=
  fun _ _ hs apart => hq _ _ (.connection hk hs apart)

/-- The server comes to rest, in whatever order its steps were taken, only when each client whose
streams are open, and whose coroutine has neither ended nor handed it over, has been answered all
that it wrote, with the one right reply to each request in order, each asked for URL by the path of
a file that is whole or by none; and all of that has reached the client's channel, unless that is
full. -/
theorem app_rests {lib' : HttpLib} {S : Type} {net : Str → HttpWorld lib' S}
    {Sends : Str → S → lib'.Conn → List UInt8 → Prop}
    {Holds : S → lib'.Conn → List UInt8 → lib'.Parser → List UInt8 → Prop}
    {tr : List (AppEvent ι sch)} {a : App ι sch} {d : Daemon sch} (hcap : 0 < cap)
    (hr : ∀ url, ReadsWhole (net url) (Sends url) Holds) (hx : FilesExact dir fs)
    (h : ((app ι lib frames sch cap dir fs).guard (AppServedWith (Fetched net))).Run tr a)
    (hq : a.Quiet lib frames) (hk : a.conns k = some d) (hinv : d.Inverts lib)
    (hclient : d.client.readStream.closed = false ∧ d.client.writeStream.closed = false)
    (hserver : d.server.readStream.closed = false)
    (hgo : d.session.prog.Ended → d.session.prog = .ret true) :
    ∃ xs : List (Exchange sch), d.log = startEvents sch ++ xs.flatMap Exchange.events ∧
      d.client.readStream.pushed = xs.map Exchange.request ∧
      (d.client.writeStream.pushed = sch.stateChange Schema.id :: xs.map Exchange.reply ∨
        d.client.writeStream.full) ∧
      ∀ x ∈ xs, x.request.op = Schema.opMakeAssetsAvailable → ∃ us paths,
        sch.urls x.request.data = .ok us ∧
        x.reply = ⟨Schema.opMakeAssetsAvailable, .strings paths⟩ ∧
        List.Forall₂ (WholePath (Leads net Sends) fs a.backend.service.mgr) us paths := by
  obtain ⟨tr', hdaemon⟩ := (app_inv h).daemons k d hk
  rcases session_ready hdaemon hgo with ⟨e, d', hs⟩ | hwaits
  · obtain ⟨x, a', step, hinner⟩ := coroutine_moves hcap h.of_guard hk hs
    exact absurd (hq x a' step) hinner
  · obtain ⟨xs, hlog, hpushed, htold⟩ :=
      settled_answers hdaemon hinv hclient hserver (hq.settled hk) hwaits
    refine ⟨xs, hlog, hpushed, htold, ?_⟩
    exact exchanges_whole hr hx h hk (hlog.trans (List.append_nil _).symm)

theorem app_quiet {a : App ι sch} (hd : ∀ k d, a.conns k = some d → d.Quiet lib)
    (hs : ∀ i < a.backend.sessions, (a.backend.service.sessions i).Over) : a.Quiet lib frames := by
  intro x a' step
  cases step with
  | waiting | greeted => trivial
  | coroutine at_ step => exact (hd _ _ at_ _ _ step).elim
  | connection at_ step => exact hd _ _ at_ _ _ step
  | asset step =>
    cases step with
    | pushed step dialled =>
      have hover := hs _ dialled
      cases step with
      | greeted due | replied due => exact (due ▸ hover).elim
    | polled step dialled | failed step dialled =>
      have hover := hs _ dialled
      cases step with
      | polled due => exact (due ▸ hover).elim
    | @closed i _ step dialled found =>
      have hover := hs i dialled
      cases hsession : a.backend.service.sessions i with
      | greeting | polling | replying => exact (hsession ▸ hover).elim
      | closed | escaped =>
        rw [hsession] at found
        exact found.elim

theorem app_rests_file : ∃ (a : App Unit sampleSchema) (d : Daemon sampleSchema),
    a.conns () = some d ∧ ∃ xs : List (Exchange sampleSchema),
      [fileRequest] = xs.map Exchange.request ∧
      (d.client.writeStream.pushed = stateFrame :: xs.map Exchange.reply ∨
        d.client.writeStream.full) := by
  obtain ⟨_, a, d, h, hk, hinv, hwrote, _, hrest, hopen, _, hover⟩ := app_served
  have hx := FilesExact.empty sampleMgr.mainAssetDir
  have hq : a.Quiet fileLib sampleFrames := by
    refine app_quiet (fun k d' hk' => ?_) hover
    obtain rfl := Option.some.inj (hk.symm.trans hk')
    exact hrest.quiet
  obtain ⟨tr, hdaemon⟩ := (app_inv h).daemons () d hk
  obtain ⟨xs, _, hxs, htold, _⟩ := app_rests Nat.one_pos (breakingNet_reads twoFiles firstUp) hx h hq
    hk hinv hopen ((daemon_streaming hdaemon).together.trans hrest.live)
    fun _ => by rw [hrest.session]
  exact ⟨a, d, hk, xs, hwrote ▸ hxs, htold⟩

end Acord
