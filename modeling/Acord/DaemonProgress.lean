import Acord.DaemonFrames
import Acord.ServerProgress

/-! The daemon never stalls on a request, ends with its client, and holds a bounded number of
frames for it. -/

namespace Acord
open Ac Channels RequestLoop Transition CommonWsSession

variable {lib : DictLib} {sch : SchemaLib} {d d' : Daemon sch} {tr : List (DaemonEvent sch)}
  {s t : CommonWsSession} {a : WsEvent}

theorem daemon_streaming (h : (daemon lib sch).Run tr d) : Streaming serverCap d.server :=
  server_streaming (daemon_server h)

/-- At any moment the daemon holds at most eleven frames of a client that neither the coroutine
nor a provider has taken, and has room for it before it asks for one more; and at most ten that
were written to the client and not sent. -/
theorem daemon_backpressure (h : (daemon lib sch).Run tr d) (hinv : d.Inverts lib) :
    d.server.wsGot.length ≤ (polledFrames d.log ++ d.providerRead).length + serverCap + 1 ∧
    (0 < d.server.wsReceives →
      d.server.wsGot.length ≤ (polledFrames d.log ++ d.providerRead).length + serverCap) ∧
    (accepted d.log ++ d.providerWrote).length ≤ d.server.wsSent.length + serverCap := by
  obtain ⟨_, hdown⟩ := daemon_links h
  obtain ⟨hheld, hdue⟩ := server_held (daemon_server h)
  have hwritten := server_unsent (daemon_server h)
  have hcontained : d.server.escaped.length = 0 := by
    by_contra hne
    obtain ⟨f, hf, hnone⟩ := hdown.outFlow.2.mp (by simpa using hne)
    obtain ⟨m, hm⟩ := hdown.encodes hinv.2 hf
    simp [hm] at hnone
  refine ⟨hheld, hdue, ?_⟩
  simp only [Daemon.serverSide] at hwritten
  omega

theorem daemon_backpressure_hi : ∃ d : Daemon sampleSchema,
    d.client.readStream.pushed = [hiFrame] ∧
      d.server.wsGot.length ≤ (polledFrames d.log ++ d.providerRead).length + 11 := by
  obtain ⟨_, d, h, hinv, hwrote, _⟩ := daemon_talked
  exact ⟨d, hwrote, (daemon_backpressure h hinv).1⟩

theorem daemonStep_closed {e : DaemonEvent sch} (hs : DaemonStep lib sch d e d')
    (hc : d.server.writeStream.closed = true) : d'.server.writeStream.closed = true := by
  rcases hs.server_step with he | ⟨_, step⟩
  · exact he ▸ hc
  · exact step_closed step hc

theorem session_ready (h : (daemon lib sch).Run tr d)
    (hgo : d.session.prog.Ended → d.session.prog = .ret true) :
    (∃ e d', DaemonStep lib sch d (.session e) d') ∨
    (d.session.prog = .ret true ∧ d.server.writeStream.buf = [] ∧
      d.server.writeStream.closed = false) ∨
    (d.server.readStream.full ∧ d.server.readStream.closed = false) := by
  refine (server_ready (daemon_server h) hgo).imp_left ?_
  rintro ⟨e, d', hs⟩
  cases hs with
  | session run io => exact ⟨e, _, .session run io⟩

/-! The daemon at rest. -/

def DaemonEvent.outer : DaemonEvent sch → Prop
  | .client a | .server a => a.outer
  | .session _ => False
  | .providerPop _ | .providerPush _ | .drop => True

def Daemon.Quiet (lib : DictLib) (d : Daemon sch) : Prop :=
  ∀ e d', DaemonStep lib sch d e d' → e.outer

def Daemon.Settled (lib : DictLib) (d : Daemon sch) : Prop :=
  ∀ e d', DaemonStep lib sch d e d' → (∀ x, e ≠ .session x) → e.outer

theorem Daemon.Quiet.settled (hq : d.Quiet lib) : d.Settled lib := fun e d' hs _ => hq e d' hs

theorem Daemon.Settled.client (hq : d.Settled lib) (hs : WsStep lib d.client a t)
    (next : ∀ m, a.message = some m → d.server.wsSent[d.client.wsGot.length]? = some m) :
    a.outer :=
  hq _ _ (.client hs next) nofun

theorem Daemon.Settled.server (hq : d.Settled lib) (hs : WsStep lib d.server a t)
    (next : ∀ m, a.message = some m → d.client.wsSent[d.server.wsGot.length]? = some m) :
    a.outer := by
  by_cases hd : a.dispatched
  · cases a with
    | push | pop | drop => trivial
    | _ => exact hd.elim
  · exact hq _ _ (.server hs next hd) nofun

theorem settled_answers (h : (daemon lib sch).Run tr d) (hinv : d.Inverts lib)
    (hclient : d.client.readStream.closed = false ∧ d.client.writeStream.closed = false)
    (hserver : d.server.readStream.closed = false) (hq : d.Settled lib)
    (hwaits : (d.session.prog = .ret true ∧ d.server.writeStream.buf = [] ∧
        d.server.writeStream.closed = false) ∨
      (d.server.readStream.full ∧ d.server.readStream.closed = false)) :
    ∃ xs : List (Exchange sch), d.log = startEvents sch ++ xs.flatMap Exchange.events ∧
      d.client.readStream.pushed = xs.map Exchange.request ∧
      (d.client.writeStream.pushed = sch.stateChange Schema.id :: xs.map Exchange.reply ∨
        d.client.writeStream.full) := by
  obtain ⟨hup, hdown⟩ := daemon_links h
  have hi := daemon_inv h
  have hst := daemon_streaming h
  have hwritten : d.client.readStream.buf = [] :=
    hup.src_idle hinv.1 hclient.1 fun a c hs hm => hq.client hs (by simp [hm])
  have hsent : d.server.readStream.buf = [] :=
    hdown.src_idle hinv.2 hserver fun a c hs hm => hq.server hs (by simp [hm])
  have hroom : ∀ c : Channel Ac.Frame, c.cap = serverCap → c.buf = [] → ¬ c.full :=
    fun c hcap => Channel.roomy (hcap ▸ Nat.succ_pos 9)
  rcases hwaits with ⟨hret, hread, hopen⟩ | ⟨hfull, _⟩
  · have hfree : ¬ Attached d.log := by
      intro ha
      obtain ⟨_, _, _, _, _, hf⟩ := attached_conversation hi.session ha
      rw [hret] at hf
      cases hf
    obtain ⟨hno, hnone⟩ := hi.before (by simpa using fun ha => hfree (hi.attached.mp ha))
    have hgot := hup.dst_idle hinv.1 hopen fun a c hs hm => hq.server hs hm
    have htold := hdown.dst_idle hinv.2 hclient.2 fun a c hs hm => hq.client hs hm
    have hpolled := hi.read
    have haccepted := hi.sent
    rw [hno, List.append_nil, Channel.popped_eq_pushed hread,
      hgot.resolve_right (hroom _ hst.writeCap hread), Channel.popped_eq_pushed hwritten] at hpolled
    rw [hnone, List.append_nil, ← Channel.popped_eq_pushed hsent] at haccepted
    rcases session_conversed hi.session with ⟨hne, _⟩ | ⟨xs, rest, hc⟩
    · exact absurd hret hne
    · rcases hc.now with ⟨rfl, _⟩ | ⟨hne, _⟩
      · refine ⟨xs, hc.log.trans (List.append_nil _), ?_, ?_⟩
        · rw [hpolled, hc.polled]
          exact List.append_nil _
        · rw [haccepted, hc.accepted] at htold
          exact htold.imp_left fun ht => ht.trans (List.append_nil _)
      · exact absurd hret hne
  · exact absurd hfull (hroom _ hst.readCap hsent)

/-- With nothing closed and the coroutine neither ended nor handing its client over, the daemon
comes to rest only when every frame the client wrote was polled and answered, with one right reply
each, and all of these have reached the client's channel, unless that is full. -/
theorem daemon_answers (h : (daemon lib sch).Run tr d) (hinv : d.Inverts lib)
    (hclient : d.client.readStream.closed = false ∧ d.client.writeStream.closed = false)
    (hserver : d.server.readStream.closed = false)
    (hgo : d.session.prog.Ended → d.session.prog = .ret true) (hq : d.Quiet lib) :
    ∃ xs : List (Exchange sch), d.log = startEvents sch ++ xs.flatMap Exchange.events ∧
      d.client.readStream.pushed = xs.map Exchange.request ∧
      (d.client.writeStream.pushed = sch.stateChange Schema.id :: xs.map Exchange.reply ∨
        d.client.writeStream.full) := by
  rcases session_ready h hgo with ⟨e, d', hs⟩ | hwaits
  · exact (hq _ _ hs).elim
  · exact settled_answers h hinv hclient hserver hq.settled hwaits

theorem Daemon.Resting.serverSide (h : d.Resting) : d.serverSide.Resting :=
  ⟨h.server, h.session, h.polled, h.live⟩

theorem Daemon.Resting.quiet (h : d.Resting) : d.Quiet lib := by
  have hnext : ∀ {e : WsEvent} {xs ys : List Message}, xs.length = ys.length →
      (∀ m, e.message = some m → xs[ys.length]? = some m) → e.message = none := by
    intro e xs ys hlen hn
    cases hm : e.message with
    | none => rfl
    | some m => simp [← hlen] at hn; exact absurd hm (hn m)
  intro e d' step
  cases step with
  | client step next => exact h.client.outer step (hnext h.down next)
  | server step next => exact h.server.outer step (hnext h.up next)
  | session run io => exact (h.serverSide.no_call run io).elim
  | providerPop | providerPush | drop => trivial

theorem daemon_answers_hi : ∃ (d : Daemon sampleSchema) (xs : List (Exchange sampleSchema)),
    d.client.readStream.pushed = [hiFrame] ∧
      d.client.readStream.pushed = xs.map Exchange.request := by
  obtain ⟨_, d, h, hinv, hwrote, _, hrest, hopen, _⟩ := daemon_talked
  obtain ⟨xs, _, hxs, _⟩ := daemon_answers h hinv hopen
    ((daemon_streaming h).together.trans hrest.live) (fun _ => by rw [hrest.session]) hrest.quiet
  exact ⟨d, xs, hwrote, hxs⟩

/-! The end of a session. -/

def DaemonEvent.session? : DaemonEvent sch → Option (LocalEvent sch)
  | .session e => some e
  | _ => none

def Left (n : Nat) (d : Daemon sch) : Prop :=
  -- with its streams closed, the coroutine has at most `n` steps left: five at most for the
  -- request it serves, six for each frame still there to be polled, and one to find the stream
  -- closed
  d.server.writeStream.closed = true ∧
    (d.session.prog.Ended ∧ d.session.prog ≠ .ret true ∨
      ∃ k, d.session.prog.Within k ∧ k + 6 * d.server.writeStream.buf.length + 1 ≤ n)

theorem step_drains (hs : WsStep lib s a t) (hc : s.writeStream.closed = true) :
    t.writeStream.buf.length ≤ s.writeStream.buf.length := by
  have hwrite : ∀ u : CommonWsSession, u.writeStream = s.writeStream →
      u.tryWriteToDispatch.writeStream.buf.length ≤ s.writeStream.buf.length := by
    intro u hu
    rcases u.tryWrite_cases with ⟨_, e⟩ | ⟨f, _, _, e⟩ | ⟨f, _, hx, _, e⟩ | ⟨f, _, hx, _, e⟩
    · exact Nat.le_of_eq (by rw [e, hu])
    · have hclose : u.wsClose.writeStream = u.writeStream := rfl
      exact Nat.le_of_eq (by rw [e, hclose, hu])
    · rw [hu, hc] at hx
      cases hx
    · rw [hu, hc] at hx
      cases hx
  have hsame : ∀ u : CommonWsSession, u.writeStream = s.writeStream →
      u.tryReadFromDispatch.writeStream.buf.length ≤ s.writeStream.buf.length := by
    intro u hu
    exact Nat.le_of_eq (by rw [(tryRead_sameInbound u).writeStream, hu])
  cases hs with
  | wsReceived =>
    unfold received
    split
    · exact Nat.le_refl _
    · exact hwrite _ rfl
  | writeTask => exact hwrite _ rfl
  | wsCompletedSend | readTask => exact hsame _ rfl
  | fireWrite | fireRead | push | drop | wsClosed => exact Nat.le_refl _
  | @pop f rest due =>
    rw [due]
    exact Nat.le_succ _

theorem left_other {e : DaemonEvent sch} {n : Nat} (hl : Left n d) (hs : DaemonStep lib sch d e d')
    (he : e.session? = none) : Left n d' := by
  obtain ⟨hc, hleft⟩ := hl
  have hsession : d'.session = d.session := by
    cases hs with
    | session => cases he
    | client | server | providerPop | providerPush | drop => rfl
  have hbuf : d'.server.writeStream.buf.length ≤ d.server.writeStream.buf.length := by
    rcases hs.server_step with he | ⟨_, step⟩
    · exact Nat.le_of_eq (he ▸ rfl)
    · exact step_drains step hc
  refine ⟨daemonStep_closed hs hc, ?_⟩
  rw [hsession]
  rcases hleft with hend | ⟨k, hk, hle⟩
  · exact .inl hend
  · exact .inr ⟨k, hk, by omega⟩

theorem left_session {e : LocalEvent sch} {n : Nat} (hl : Left n d)
    (hs : DaemonStep lib sch d (.session e) d') : ∃ m < n, Left m d' := by
  have hclosed := daemonStep_closed hs hl.1
  obtain ⟨hc, hleft⟩ := hl
  cases hs with
  | @session _ q h run io =>
    generalize d.session = s at run hleft
    rcases hleft with ⟨hend, hne⟩ | ⟨k, hk, hle⟩
    · -- an ended coroutine takes no step
      cases run with
      | request => exact absurd rfl hne
      | call => exact hend.elim
    · cases run with
      | @request w r hok =>
        cases io with
        | @polled f rest due =>
          have hbuf : d.server.writeStream.buf = f :: rest := due
          rw [hbuf, List.length_cons] at hle
          refine ⟨n - 1, by omega, hclosed, .inr ⟨5, serve_within sch _, ?_⟩⟩
          show 5 + 6 * rest.length + 1 ≤ n - 1
          omega
        | pollClosed => exact ⟨n - 1, by omega, hclosed, .inl ⟨trivial, nofun⟩⟩
        | pollDetached => exact ⟨n - 1, by omega, hclosed, .inl ⟨trivial, nofun⟩⟩
      | @call op k' w r hok =>
        obtain _ | k := k
        · exact hk.elim
        · have hbuf : h.up.buf = d.server.writeStream.buf := by
            cases io <;> rfl
          refine ⟨n - 1, by omega, hclosed, .inr ⟨k, hk r, ?_⟩⟩
          show k + 6 * h.up.buf.length + 1 ≤ n - 1
          rw [hbuf]
          omega

/-- Once the streams of the server session are closed, whatever the order of the steps from there
on: the coroutine makes at most 66 more, and until it has ended it has one to make. -/
theorem daemon_winds_down {tr' : List (DaemonEvent sch)} (h : (daemon lib sch).Run tr d)
    (hc : d.server.writeStream.closed = true) (h' : ((daemon lib sch).after d).Run tr' d') :
    (tr'.filterMap DaemonEvent.session?).length ≤ 6 * (serverCap + 1) ∧
    ((d'.session.prog.Ended ∧ d'.session.prog ≠ .ret true) ∨
      ∃ e d'', DaemonStep lib sch d' (.session e) d'') := by
  have hst := daemon_streaming h
  have hhandling := session_handling (daemon_inv h).session
  have hroom := hst.writeRoom
  have h0 : Left (6 * (serverCap + 1)) d := ⟨hc, .inr ⟨5, hhandling.within, by omega⟩⟩
  have hspent : ∃ m, Left m d' ∧
      m + (tr'.filterMap DaemonEvent.session?).length ≤ 6 * (serverCap + 1) := by
    apply System.Run.spends (M := daemon lib sch) _ _ h0 h'
    · intro d e d' n hl hs he
      cases e with
      | session e => exact left_session hl hs
      | _ => exact absurd rfl he
    · exact fun d e d' n hl hs he => left_other hl hs he
  obtain ⟨m, hleft, hle⟩ := hspent
  refine ⟨by omega, ?_⟩
  by_cases hgo : d'.session.prog.Ended → d'.session.prog = .ret true
  · have hrun := h.append h'
    rcases session_ready hrun hgo with hs | ⟨_, _, hopen⟩ | ⟨_, hopen⟩
    · exact .inr hs
    · rw [hleft.1] at hopen
      cases hopen
    · rw [(daemon_streaming hrun).together, hleft.1] at hopen
      cases hopen
  · exact .inl (Classical.not_imp.mp hgo)

theorem daemon_winds_down_hi : ∃ d d' : Daemon sampleSchema, ∃ tr',
    ((daemon talkLib sampleSchema).after d).Run tr' d' ∧
      1 = (tr'.filterMap DaemonEvent.session?).length ∧
      (tr'.filterMap DaemonEvent.session?).length ≤ 66 := by
  obtain ⟨_, d, h, _, _, _, hrest, _⟩ := daemon_talked
  have h1 := h.next (a := DaemonEvent.server .wsClosed) (.server .wsClosed nofun id)
  have hrun : (localSession sampleSchema).step d.session (.request Polled.closed) _ :=
    hrest.session ▸ Loop.Step.request (L := acordRun sampleSchema) (r := Polled.closed) rfl
  have h2 := (System.Run.start (M := (daemon talkLib sampleSchema).after
    { d with server := d.server.wsClosed }) rfl).next
    (a := DaemonEvent.session (.request Polled.closed)) (.session hrun (.pollClosed hrest.polled rfl))
  exact ⟨_, _, _, h2, rfl, (daemon_winds_down h1 rfl h2).1⟩

end Acord
