import Acord.ServerSide

/-! What the server's side of a connection comes to, whatever its peer sends: it holds a bounded
number of frames, and rests only when it has answered all it was asked. -/

namespace Acord
open Ac Channels RequestLoop Transition CommonWsSession

variable {lib : DictLib} {sch : SchemaLib} {target : Str} {d d' : ServerSide sch}
  {tr : List (ServerEvent sch)} {s t : CommonWsSession} {a : WsEvent}

/-! The dispatch streams of a session: bounded, and closed together. -/

structure Streaming (cap : Nat) (s : CommonWsSession) : Prop where
  readCap : s.readStream.cap = cap
  writeCap : s.writeStream.cap = cap
  readRoom : s.readStream.buf.length ≤ cap
  writeRoom : s.writeStream.buf.length ≤ cap
  together : s.readStream.closed = s.writeStream.closed

variable {cap : Nat}

theorem tryWrite_streaming (h : Streaming cap s) : Streaming cap s.tryWriteToDispatch := by
  obtain ⟨hr, hw, hrb, hwb, hc⟩ := h
  rcases s.tryWrite_cases with
    ⟨_, e⟩ | ⟨f, _, _, e⟩ | ⟨f, _, _, _, e⟩ | ⟨f, _, _, hfull, e⟩ <;> rw [e]
  · exact ⟨hr, hw, hrb, hwb, hc⟩
  · exact ⟨hr, hw, hrb, hwb, hc⟩
  · exact ⟨hr, hw, hrb, hwb, hc⟩
  · refine ⟨hr, hw, hrb, ?_, hc⟩
    have hlt : ¬ s.writeStream.cap ≤ s.writeStream.buf.length := hfull
    simp only [wsReceive, Channel.push_buf, List.length_append, List.length_singleton]
    omega

theorem tryRead_streaming (h : Streaming cap s) : Streaming cap s.tryReadFromDispatch := by
  obtain ⟨hr, hw, hrb, hwb, hc⟩ := h
  rcases s.tryRead_cases with ⟨_, e⟩ | ⟨_, f, rest, hb, e⟩ | ⟨_, _, _, e⟩ | ⟨_, _, _, e⟩ <;> rw [e]
  · exact ⟨hr, hw, hrb, hwb, hc⟩
  · have hlen : rest.length ≤ cap := by
      have hcons : s.readStream.buf.length = rest.length + 1 := by rw [hb, List.length_cons]
      omega
    unfold sendFrame
    split <;> exact ⟨hr, hw, hlen, hwb, hc⟩
  · exact ⟨hr, hw, hrb, hwb, hc⟩
  · exact ⟨hr, hw, hrb, hwb, hc⟩

theorem step_streaming (hs : WsStep lib s a t) (h : Streaming cap s) : Streaming cap t := by
  have hkeep := h
  obtain ⟨hr, hw, hrb, hwb, hc⟩ := h
  cases hs with
  | wsReceived =>
    unfold received
    split
    · exact ⟨hr, hw, hrb, hwb, hc⟩
    · exact tryWrite_streaming ⟨hr, hw, hrb, hwb, hc⟩
  | wsCompletedSend => exact tryRead_streaming ⟨hr, hw, hrb, hwb, hc⟩
  | writeTask => exact tryWrite_streaming ⟨hr, hw, hrb, hwb, hc⟩
  | readTask => exact tryRead_streaming ⟨hr, hw, hrb, hwb, hc⟩
  | fireWrite | fireRead => exact ⟨hr, hw, hrb, hwb, hc⟩
  | push live room =>
    refine ⟨hr, hw, ?_, hwb, hc⟩
    have hlt : ¬ s.readStream.cap ≤ s.readStream.buf.length := room
    simp only [Channel.push_buf, List.length_append, List.length_singleton]
    omega
  | @pop f rest due =>
    refine ⟨hr, hw, hrb, ?_, hc⟩
    have hcons : s.writeStream.buf.length = rest.length + 1 := by rw [due, List.length_cons]
    simp only [Channel.pop_buf]
    omega
  | drop | wsClosed => exact ⟨hr, hw, hrb, hwb, rfl⟩

theorem opened_streaming {rs ws : Channel Ac.Frame} (target : Str) (hr : rs.cap = cap)
    (hw : ws.cap = cap) (hrb : rs.buf.length ≤ cap) (hwb : ws.buf.length ≤ cap)
    (hc : rs.closed = ws.closed) : Streaming cap (serverWsOpened lib target rs ws) := by
  unfold serverWsOpened
  exact tryRead_streaming ⟨hr, hw, hrb, hwb, hc⟩

theorem ServerOpened.streaming (h : ServerOpened lib sch target d) :
    Streaming serverCap d.server := by
  have hnil : (Channel.create serverCap : Channel Ac.Frame).buf.length ≤ serverCap :=
    Nat.zero_le serverCap
  cases h with
  | waiting => exact opened_streaming _ rfl rfl hnil hnil rfl
  | greeted =>
    have hone : (greetingStream sch).buf.length ≤ serverCap := Nat.succ_le_succ (Nat.zero_le 9)
    have h : Streaming serverCap
        (serverWsOpened lib target (greetingStream sch) (.create serverCap)) :=
      opened_streaming _ rfl rfl hone hnil rfl
    exact h

theorem serverStep_streaming {e : ServerEvent sch} (hi : Streaming serverCap d.server)
    (hs : ServerStep lib sch d e d') : Streaming serverCap d'.server := by
  rcases hs.pumped with he | ⟨_, step⟩
  · exact he ▸ hi
  · exact step_streaming step hi

theorem server_streaming (h : (serverSide lib sch target).Run tr d) :
    Streaming serverCap d.server :=
  h.invariant (I := fun d => Streaming serverCap d.server)
    (fun _ hd => ServerOpened.streaming hd) fun _ _ _ => serverStep_streaming

theorem InFlow.got_length (h : InFlow lib s) : s.wsGot.length ≤ s.writeStream.pushed.length + 1 := by
  rcases h with hd | ⟨ms, m, _, hg, _, hd, _⟩
  · have hlen := hd.length_eq
    have hone : s.receiving.toList.length ≤ 1 := by
      cases s.receiving <;> simp
    rw [List.length_append] at hlen
    omega
  · rw [hg, List.length_append, hd.length_eq]
    exact Nat.le_refl _

theorem InFlow.got_decodes (h : InFlow lib s) (hi : s.InInv lib) (hdue : 0 < s.wsReceives) :
    Decodes lib s.wsGot s.writeStream.pushed := by
  rcases hi with ⟨h1, h2⟩ | ⟨⟨h1, _⟩, _⟩
  · have hnone : s.receiving = none := h2.mpr (by omega)
    rcases h with hd | ⟨_, _, _, _, _, _, hz, _⟩
    · rwa [hnone, Option.toList_none, List.append_nil] at hd
    · omega
  · omega

theorem server_held (h : (serverSide lib sch target).Run tr d) :
    d.server.wsGot.length ≤ (polledFrames d.log ++ d.providerRead).length + serverCap + 1 ∧
    (0 < d.server.wsReceives →
      d.server.wsGot.length ≤ (polledFrames d.log ++ d.providerRead).length + serverCap) := by
  have hi := server_inv h
  have hpump := server_pump h
  have hflow := (pump_flow hpump).1
  have hroom := (server_streaming h).writeRoom
  have hgot := congrArg List.length d.server.writeStream.ledger
  rw [List.length_append, hi.read] at hgot
  constructor
  · have hlen := hflow.got_length
    omega
  · intro hdue
    have hlen := (hflow.got_decodes (pump_inv hpump).1 hdue).length_eq
    omega

theorem server_unsent (h : (serverSide lib sch target).Run tr d) :
    (accepted d.log ++ d.providerWrote).length ≤
      d.server.wsSent.length + d.server.escaped.length + serverCap := by
  have hcount := (pump_sentInOrder (server_pump h)).count
  have hroom := (server_streaming h).readRoom
  have hsent := congrArg List.length d.server.readStream.ledger
  rw [List.length_append, (server_inv h).sent] at hsent
  omega

/-- At any moment, whatever the peer sends, the server holds at most eleven of its messages that
neither the coroutine nor a provider has taken, and has room for one before it asks for it; and at
most ten frames written to the peer and not sent, and one that could not be. -/
theorem server_backpressure (h : (serverSide lib sch target).Run tr d) :
    d.server.wsGot.length ≤ (polledFrames d.log ++ d.providerRead).length + serverCap + 1 ∧
    (0 < d.server.wsReceives →
      d.server.wsGot.length ≤ (polledFrames d.log ++ d.providerRead).length + serverCap) ∧
    (accepted d.log ++ d.providerWrote).length ≤
      d.server.wsSent.length + d.server.escaped.length + serverCap ∧
    d.server.escaped.length ≤ 1 := by
  obtain ⟨hheld, hdue⟩ := server_held h
  have honce := (pump_sentInOrder (server_pump h)).once
  exact ⟨hheld, hdue, server_unsent h, honce⟩

theorem server_backpressure_page : ∃ d : ServerSide sampleSchema,
    d.server.wsGot.length = 2 ∧
      d.server.wsGot.length ≤ (polledFrames d.log ++ d.providerRead).length + 11 := by
  obtain ⟨_, d, h, hgot, _⟩ := page_talked
  have htwo : d.server.wsGot.length = 2 := congrArg List.length hgot
  exact ⟨d, htwo, (server_backpressure h).1⟩

/-! The coroutine between its calls: what it may be waiting for. -/

abbrev Handles {α : Type} (p : LocalProg α) : Prop := p.All (· ≠ LocalOp.poll)

theorem pushed_handles (f : Ac.Frame) : Handles (Io.push f >>= fun _ => .ret true) :=
  (push_all f LocalOp.noConfusion).bind fun _ => trivial

theorem serve_handles (sch : SchemaLib) (p : Polled) : Handles (catchClosed (serve sch p)) := by
  cases p with
  | closed => trivial
  | detached => trivial
  | frame f =>
    apply catchClosed_all
    simp only [serve, Polled.result, Prog.pure_eq, Prog.ret_bind]
    split
    · refine Prog.All.bind ?_ fun us => ?_
      · cases sch.urls f.data <;> trivial
      · exact (acordMakeAssetsAvailable_all us (fun _ => LocalOp.noConfusion) LocalOp.noConfusion
          (fun _ => LocalOp.noConfusion) fun _ => LocalOp.noConfusion).bind fun _ => trivial
    · split
      · refine Prog.All.bind (Prog.All.tryCatch ?_ fun _ => trivial) ?_
        · cases sch.provider f.data with
          | error e => trivial
          | ok name =>
            refine (push_all _ LocalOp.noConfusion).bind fun _ => ?_
            exact ⟨LocalOp.noConfusion, fun _ => ⟨LocalOp.noConfusion, fun r => by
              cases r <;> trivial⟩⟩
        · rintro (_ | error)
          · trivial
          · exact pushed_handles _
      · exact pushed_handles _

structure Handling (q : LocalProg Bool) : Prop where
  -- a handler has at most five calls left to make, and none of them polls
  within : q.Within 5
  handles : Handles q

theorem session_handling {log : List (LocalEvent sch)} {s : Server localEffects Exn LocalEnv}
    (h : (localSession sch).Run log s) : Handling s.prog := by
  refine h.invariant (I := fun s => Handling s.prog) ?_ ?_
  · rintro s rfl
    have hone : (acordRun sch).start.Within 1 :=
      Prog.Within.tryCatch (m := 1) (n := 0)
        ((push_within _).bind (n := 0) fun _ => Prog.within_ret true 0)
        fun e => by cases e <;> trivial
    exact ⟨hone.mono (by decide), catchClosed_all (pushed_handles _)⟩
  · rintro s e t ⟨hw, hh⟩ hs
    cases hs with
    | request => exact ⟨serve_within sch _, serve_handles sch _⟩
    | @call op k w r hr =>
      have hk : (k r).Within 4 := hw r
      exact ⟨hk.mono (by decide), hh.2 r⟩

theorem step_closed (hs : WsStep lib s a t) (hc : s.writeStream.closed = true) :
    t.writeStream.closed = true := by
  cases hs with
  | wsReceived => exact (received_sameOutbound _ _ _).closed.trans hc
  | writeTask => exact (tryWrite_sameOutbound _).closed.trans hc
  | wsCompletedSend => exact (congrArg Channel.closed (tryRead_sameInbound _).writeStream).trans hc
  | readTask => exact (congrArg Channel.closed (tryRead_sameInbound _).writeStream).trans hc
  | fireWrite | fireRead | push | pop => exact hc
  | drop | wsClosed => rfl

theorem serverStep_closed {e : ServerEvent sch} (hs : ServerStep lib sch d e d')
    (hc : d.server.writeStream.closed = true) : d'.server.writeStream.closed = true := by
  rcases hs.pumped with he | ⟨_, step⟩
  · exact he ▸ hc
  · exact step_closed step hc

def SeenClosed (d : ServerSide sch) : Prop :=
  d.session.env.closed = true → d.server.writeStream.closed = true

theorem serverStep_seenClosed {e : ServerEvent sch} (hst : Streaming serverCap d.server)
    (hi : SeenClosed d) (hs : ServerStep lib sch d e d') : SeenClosed d' := by
  have hkeep : ∀ w : LocalEnv, d'.session.env = w → w.closed = d.session.env.closed →
      SeenClosed d' := by
    intro w hw hsame hc
    exact serverStep_closed hs (hi (hsame ▸ hw ▸ hc))
  cases hs with
  | server | providerPop | providerPush | drop => exact hkeep _ rfl rfl
  | @session e q h run io =>
    intro hclosed
    by_cases hold : d.session.env.closed = true
    · have step : ServerStep lib sch _ _ _ := .session run io
      exact serverStep_closed step (hi hold)
    · -- the call just answered found a stream closed
      have hnow : q.env.closed = true := hclosed
      generalize d.session = s at run hold
      cases io with
      | pollClosed _ closed => exact closed
      | pushClosed closed => exact hst.together ▸ closed
      | _ =>
        cases run
        exact absurd hnow hold

theorem server_seenClosed (h : (serverSide lib sch target).Run tr d) : SeenClosed d := by
  have hboth : Streaming serverCap d.server ∧ SeenClosed d := by
    refine h.invariant (I := fun d => Streaming serverCap d.server ∧ SeenClosed d) ?_ ?_
    · intro d hd
      refine ⟨ServerOpened.streaming hd, ?_⟩
      cases hd with
      | waiting | greeted => exact fun hc => Bool.noConfusion hc
    · rintro d e d' ⟨hst, hi⟩ hs
      exact ⟨serverStep_streaming hst hs, serverStep_seenClosed hst hi hs⟩
  exact hboth.2

theorem server_ready (h : (serverSide lib sch target).Run tr d)
    (hgo : d.session.prog.Ended → d.session.prog = .ret true) :
    (∃ e d', ServerStep lib sch d (.session e) d') ∨
    (d.session.prog = .ret true ∧ d.server.writeStream.buf = [] ∧
      d.server.writeStream.closed = false) ∨
    (d.server.readStream.full ∧ d.server.readStream.closed = false) := by
  -- the coroutine has an answer to go on with, or it awaits a frame and there is none, or it
  -- pushes one and there is no room
  have hst := server_streaming h
  have hseen := server_seenClosed h
  have hhandling := session_handling (server_inv h).session
  have hstep : ∀ e q h', (localSession sch).step d.session e q → Streams sch d.handoff e h' →
      ∃ e d', ServerStep lib sch d (.session e) d' :=
    fun e q h' run io => ⟨e, _, .session run io⟩
  unfold SeenClosed at hseen
  generalize d.session = s at hgo hseen hhandling hstep
  obtain ⟨prog, w⟩ := s
  cases prog with
  | throw e => cases hgo trivial
  | crash => cases hgo trivial
  | ret b =>
    obtain rfl : b = true := by cases hgo trivial; rfl
    cases hw : w.detached with
    | true => exact .inl (hstep (.request .detached) _ _ (.request hw) .pollDetached)
    | false =>
      cases hb : d.server.writeStream.buf with
      | cons f rest => exact .inl (hstep (.request (.frame f)) _ _ (.request hw) (.polled hb))
      | nil =>
        cases hc : d.server.writeStream.closed with
        | true => exact .inl (hstep (.request .closed) _ _ (.request hw) (.pollClosed hb hc))
        | false => exact .inr (.inl ⟨rfl, rfl, rfl⟩)
  | call op k =>
    cases op with
    | poll => exact absurd rfl hhandling.handles.1
    | connect id => exact .inl (hstep _ _ _ (.call (r := Except.ok ()) trivial) .connect)
    | aioPush f => exact .inl (hstep _ _ _ (.call (r := Pushed.ok) nofun) .aioPush)
    | aioPoll => exact .inl (hstep _ _ _ (.call (r := Polled.closed) nofun) .aioPoll)
    | detach => exact .inl (hstep _ _ _ (.call (r := ()) trivial) .detach)
    | attach name => exact .inl (hstep _ _ _ (.call (r := Except.ok ()) trivial) .attached)
    | push f =>
      cases hw : w.detached with
      | true =>
        have hok : localEnv.allow w (.push f) Pushed.detached := hw
        exact .inl (hstep _ _ _ (.call hok) .pushDetached)
      | false =>
        cases hc : d.server.readStream.closed with
        | true =>
          have hok : localEnv.allow w (.push f) Pushed.closed := hw
          exact .inl (hstep _ _ _ (.call hok) (.pushClosed hc))
        | false =>
          by_cases hfull : d.server.readStream.full
          · exact .inr (.inr ⟨hfull, rfl⟩)
          · have hopen : w.closed = false := by
              by_contra hx
              have hup := hseen (by simpa using hx)
              rw [← hst.together, hc] at hup
              cases hup
            have hok : localEnv.allow w (.push f) Pushed.ok := ⟨hw, hopen⟩
            exact .inl (hstep _ _ _ (.call hok) (.pushed hc hfull))

/-! The server's side at rest. -/

/-- What the peer, a provider or a closing websocket may do at any time. -/
def ServerEvent.outer : ServerEvent sch → Prop
  | .server (.wsReceived _) => True
  | .server a => a.outer
  | .session _ => False
  | .providerPop _ | .providerPush _ | .drop => True

def ServerSide.Quiet (lib : DictLib) (d : ServerSide sch) : Prop :=
  ∀ e d', ServerStep lib sch d e d' → e.outer

theorem ServerSide.Quiet.server (hq : d.Quiet lib) (hs : WsStep lib d.server a t)
    (hm : a.message = none) : a.outer := by
  by_cases hd : a.dispatched
  · cases a with
    | push | pop | drop => trivial
    | _ => exact hd.elim
  · have houter := hq _ _ (.server hs hd)
    cases a with
    | wsReceived => cases hm
    | _ => exact houter

theorem OutInv.idle (hout : s.OutInv) (hopen : s.readStream.closed = false) (he : s.escaped = [])
    (hidle : ∀ a t, WsStep lib s a t → a.message = none → a.outer) : s.readStream.buf = [] := by
  by_contra hb
  rcases hout with ⟨h1, _⟩ | ⟨_, ⟨_, hc, _⟩ | ⟨_, hne, _⟩⟩
  · have hsend : s.wsSends = 0 := by
      by_contra hn
      exact hidle _ _ (.wsCompletedSend (by omega)) rfl
    have htask : s.readTasks = 0 := by
      by_contra hn
      exact hidle _ _ (.readTask (by omega)) rfl
    exact hidle _ _ (.fireRead ⟨by omega, .inr hb⟩) rfl
  · simp [hopen] at hc
  · exact hne he

theorem InFlow.idle (hflow : InFlow lib s) (hin : s.InInv lib)
    (hopen : s.writeStream.closed = false) (hroom : ¬ s.writeStream.full)
    (hidle : ∀ a t, WsStep lib s a t → a.message = none → a.outer) :
    s.writeStream.pushed = decodedPrefix lib s.wsGot := by
  rcases hin with hlive | ⟨_, _, _, hc | ⟨m, hm, e, he⟩⟩
  · have htask : s.writeTasks = 0 := by
      by_contra hn
      exact hidle _ _ (.writeTask (by omega)) rfl
    have hwait : s.writeStream.writeWaits = 0 := by
      by_contra hn
      exact hidle _ _ (.fireWrite ⟨by omega, .inr hroom⟩) rfl
    -- the one token that is left is a receive, so no message is held
    have hdue : 0 < s.wsReceives := by
      have hone := hlive.1
      omega
    exact (hflow.got_decodes (.inl hlive) hdue).decodedPrefix_eq.symm
  · simp [hopen] at hc
  · exact hflow.pushed_eq hm he

/-- With nothing closed, the coroutine neither ended nor handing its client over, and every frame
for the peer one that its format takes, the server comes to rest only when each of the peer's
messages, up to the first that does not decode, was polled and answered, by one right reply each,
and the state and all of these replies were sent, in order. -/
theorem server_answers (h : (serverSide lib sch target).Run tr d)
    (hopen : d.server.readStream.closed = false)
    (hgo : d.session.prog.Ended → d.session.prog = .ret true) (he : d.server.escaped = [])
    (hq : d.Quiet lib) :
    ∃ xs : List (Exchange sch), d.log = startEvents sch ++ xs.flatMap Exchange.events ∧
      xs.map Exchange.request = decodedPrefix lib d.server.wsGot ∧
      d.server.wsSent.map some =
        (sch.stateChange Schema.id :: xs.map Exchange.reply).map d.server.cvt.encode := by
  have hi := server_inv h
  have hst := server_streaming h
  have hpump := server_pump h
  obtain ⟨hin, hout⟩ := pump_inv hpump
  obtain ⟨hinflow, houtflow⟩ := pump_flow hpump
  have hidle : ∀ a t, WsStep lib d.server a t → a.message = none → a.outer :=
    fun _ _ hs hm => hq.server hs hm
  have hread : d.server.readStream.buf = [] := OutInv.idle hout hopen he hidle
  have hroom : ∀ c : Channel Ac.Frame, c.cap = serverCap → c.buf = [] → ¬ c.full :=
    fun c hcap => Channel.roomy (hcap ▸ Nat.succ_pos 9)
  rcases server_ready h hgo with ⟨e, d', hs⟩ | ⟨hret, hwrite, hlive⟩ | ⟨hfull, _⟩
  · exact (hq _ _ hs).elim
  · have hfree : ¬ Attached d.log := by
      intro ha
      obtain ⟨_, _, _, _, _, hf⟩ := attached_conversation hi.session ha
      rw [hret] at hf
      cases hf
    obtain ⟨hno, hnone⟩ := hi.before (by simpa using fun ha => hfree (hi.attached.mp ha))
    have hgot := hinflow.idle hin hlive (hroom _ hst.writeCap hwrite) hidle
    have hsent := houtflow.all_sent he
    have hpolled := hi.read
    have haccepted := hi.sent
    rw [hno, List.append_nil, Channel.popped_eq_pushed hwrite, hgot] at hpolled
    rw [hnone, List.append_nil, ← Channel.popped_eq_pushed hread] at haccepted
    rcases session_conversed hi.session with ⟨hne, _⟩ | ⟨xs, rest, hc⟩
    · exact absurd hret hne
    · rcases hc.now with ⟨rfl, _⟩ | ⟨hne, _⟩
      · refine ⟨xs, hc.log.trans (List.append_nil _), ?_, ?_⟩
        · rw [hpolled, hc.polled]
          exact (List.append_nil _).symm
        · rw [hsent, haccepted, hc.accepted]
          exact congrArg _ (List.append_nil _)
      · exact absurd hret hne
  · -- it waits for room only while something is left to send
    exact absurd hfull (hroom _ hst.readCap hread)

theorem CommonWsSession.Idle.outer (hi : s.Idle) (hs : WsStep lib s a t) (hm : a.message = none) :
    a.outer := by
  have hidle := hi
  obtain ⟨h1, h2, h3, _, _⟩ := hi
  cases hs with
  | wsReceived => cases hm
  | wsCompletedSend | writeTask | readTask => omega
  | fireWrite due => exact absurd due hidle.write
  | fireRead due => exact absurd due hidle.read
  | push | pop | drop | wsClosed => trivial

theorem ServerSide.Resting.no_call (h : d.Resting) {e : LocalEvent sch}
    {q : Server localEffects Exn LocalEnv} {u : Handoff}
    (run : (localSession sch).step d.session e q) (io : Streams sch d.handoff e u) : False := by
  rw [h.session] at run
  cases run with
  | @request w r hok =>
    cases io with
    | polled due => exact absurd (h.polled.symm.trans due) nofun
    | pollClosed _ hclosed => exact absurd (h.live.symm.trans hclosed) nofun
    | pollDetached => exact absurd hok nofun

theorem ServerSide.Resting.quiet (h : d.Resting) : d.Quiet lib := by
  intro e d' step
  cases step with
  | @server a c step own =>
    cases hm : a.message with
    | none =>
      have houter := h.server.outer step hm
      cases a with
      | wsReceived => cases hm
      | _ => exact houter
    | some m =>
      cases a with
      | wsReceived => trivial
      | _ => cases hm
  | session run io => exact (h.no_call run io).elim
  | providerPop | providerPush | drop => trivial

theorem server_answers_page : ∃ (d : ServerSide sampleSchema) (xs : List (Exchange sampleSchema)),
    d.server.wsGot = [.text hiJson, .binary [0xA1]] ∧
    xs.map Exchange.request = decodedPrefix pageLib d.server.wsGot ∧
    d.server.wsSent.length = 2 := by
  obtain ⟨_, d, h, hgot, hsent, hopen, he, hrest, _⟩ := page_talked
  obtain ⟨xs, _, hxs, _⟩ := server_answers h hopen (fun _ => by rw [hrest.session]) he hrest.quiet
  exact ⟨d, xs, hgot, hxs, congrArg List.length hsent⟩

end Acord
