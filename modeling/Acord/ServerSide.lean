import Acord.Handoff
import Acord.SessionFrames
import Acord.Tunnel
import Acord.PumpDecode
import Acord.PumpEncode

/-! The server's side of one connection, whatever its peer sends: the websocket session, the
coroutine behind it and the provider the client may be handed over to. -/

namespace Acord
open Ac Channels RequestLoop Transition

variable {lib : DictLib} {sch : SchemaLib} {target : Str}

/-- `log` is what the coroutine has done; `providerRead` and `providerWrote` are the frames the
provider took from and put into the streams once they were its own. -/
structure ServerSide (sch : SchemaLib) where
  server : CommonWsSession
  session : Server localEffects Exn LocalEnv
  attached : Bool
  log : List (LocalEvent sch)
  providerRead : List Ac.Frame
  providerWrote : List Ac.Frame

inductive ServerEvent (sch : SchemaLib)
  | server (a : WsEvent)
  | session (e : LocalEvent sch)
  | providerPop (f : Ac.Frame)
  | providerPush (f : Ac.Frame)
  | drop

def serverCap : Nat := 10

def greetingStream (sch : SchemaLib) : Channel Ac.Frame :=
  (Channel.create serverCap).push (sch.stateChange Schema.id)

/-- The coroutine runs in a context of its own: it may have pushed its state before `wsOpened`
looks into the stream. -/
inductive ServerOpened (lib : DictLib) (sch : SchemaLib) (target : Str) : ServerSide sch → Prop
  | waiting :
      ServerOpened lib sch target
        { server := serverWsOpened lib target (.create serverCap) (.create serverCap)
          session := ⟨(acordRun sch).start, ⟨false, false⟩⟩
          attached := false, log := [], providerRead := [], providerWrote := [] }
  | greeted :
      ServerOpened lib sch target
        { server := serverWsOpened lib target (greetingStream sch) (.create serverCap)
          session := ⟨.ret true, ⟨false, false⟩⟩
          attached := false, log := startEvents sch, providerRead := [], providerWrote := [] }

def WsEvent.dispatched : WsEvent → Prop
  | .push _ | .pop _ | .drop => True
  | _ => False

namespace ServerSide

def handoff (d : ServerSide sch) : Handoff where
  session := d.session
  up := d.server.writeStream
  down := d.server.readStream
  attached := d.attached

def called (d : ServerSide sch) (e : LocalEvent sch) (q : Server localEffects Exn LocalEnv)
    (h : Handoff) : ServerSide sch :=
  { d with
    server := { d.server with writeStream := h.up, readStream := h.down }
    session := q
    attached := h.attached
    log := d.log ++ [e] }

end ServerSide

inductive ServerStep (lib : DictLib) (sch : SchemaLib) :
    ServerSide sch → ServerEvent sch → ServerSide sch → Prop
  -- Any message may be received at any time that the session asks for one. Of the session's own
  -- events none is a push, a pop or a drop: these are the coroutine's and the provider's.
  | server {d : ServerSide sch} {a : WsEvent} {c : CommonWsSession} (step : WsStep lib d.server a c)
      (own : ¬ a.dispatched) :
      ServerStep lib sch d (.server a) { d with server := c }
  | session {d : ServerSide sch} {e : LocalEvent sch} {q : Server localEffects Exn LocalEnv}
      {h : Handoff} (run : (localSession sch).step d.session e q)
      (io : Streams sch d.handoff e h) :
      ServerStep lib sch d (.session e) (d.called e q h)
  | providerPop {d : ServerSide sch} {f : Ac.Frame} {rest : List Ac.Frame} (own : d.attached = true)
      (due : d.server.writeStream.buf = f :: rest) :
      ServerStep lib sch d (.providerPop f)
        { d with
          server := { d.server with writeStream := d.server.writeStream.pop f rest due }
          providerRead := d.providerRead ++ [f] }
  | providerPush {d : ServerSide sch} {f : Ac.Frame} (own : d.attached = true)
      (live : d.server.readStream.closed = false) (room : ¬ d.server.readStream.full) :
      ServerStep lib sch d (.providerPush f)
        { d with
          server := { d.server with readStream := d.server.readStream.push f }
          providerWrote := d.providerWrote ++ [f] }
  -- the streams end with the coroutine, or with the provider that has taken them
  | drop {d : ServerSide sch} (own : d.attached = true ∨ d.session.prog.Ended ∧
      d.session.prog ≠ .ret true) :
      ServerStep lib sch d .drop { d with server := d.server.wsClosed }

def serverSide (lib : DictLib) (sch : SchemaLib) (target : Str) :
    System (ServerSide sch) (ServerEvent sch) :=
  ⟨ServerOpened lib sch target, ServerStep lib sch⟩

variable {d d' : ServerSide sch} {e : LocalEvent sch} {tr : List (ServerEvent sch)}

theorem unused_greeting : Unused (greetingStream sch) (.create serverCap) := ⟨rfl, rfl, rfl, rfl⟩

/-! The websocket session by itself. -/

def ServerEvent.pumped : ServerEvent sch → Option WsEvent
  | .server a => some a
  | .session (.request (.frame f)) => some (.pop f)
  | .session (.call (.push f) .ok) => some (.push f)
  | .session (.call (.attach _) (.error _)) => some .drop
  | .session _ => none
  | .providerPop f => some (.pop f)
  | .providerPush f => some (.push f)
  | .drop => some .drop

theorem session_pumped {h : Handoff} {s : Server localEffects Exn LocalEnv}
    (io : Streams sch d.handoff e h) :
    (pump lib).Follows (ServerEvent.session e).pumped d.server
      fun t => t = (d.called e s h).server := by
  cases io with
  | polled due => exact ⟨_, .pop due, rfl⟩
  | pushed live room => exact ⟨_, .push live room, rfl⟩
  | refused => exact ⟨_, .drop, rfl⟩
  | pollClosed | pollDetached | pushClosed | pushDetached | attached | connect | aioPush | aioPoll
  | detach => exact rfl

def serverPump (lib : DictLib) (sch : SchemaLib) (target : Str) :
    Simulation (serverSide lib sch target) (pump lib) where
  rel _ d s := s = d.server
  obs := ServerEvent.pumped
  start := by
    intro d hd
    cases hd with
    | waiting => exact ⟨_, .server target (unused_create _ _), rfl⟩
    | greeted => exact ⟨_, .server target unused_greeting, rfl⟩
  step := by
    rintro tr d a d' _ _ rfl hs
    cases hs with
    | server step => exact ⟨_, step, rfl⟩
    | session run io => exact session_pumped io
    | providerPop own due => exact ⟨_, .pop due, rfl⟩
    | providerPush own live room => exact ⟨_, .push live room, rfl⟩
    | drop => exact ⟨_, .drop, rfl⟩

theorem server_pump (h : (serverSide lib sch target).Run tr d) :
    (pump lib).Run (tr.filterMap ServerEvent.pumped) d.server := by
  obtain ⟨s, hs, rfl⟩ := (serverPump lib sch target).run h
  exact hs

theorem ServerStep.pumped {a : ServerEvent sch} (hs : ServerStep lib sch d a d') :
    d'.server = d.server ∨ ∃ b, WsStep lib d.server b d'.server := by
  cases hs with
  | server step => exact .inr ⟨_, step⟩
  | @session e q h run io =>
    have hfollows : (pump lib).Follows _ _ _ := session_pumped (s := q) io
    unfold System.Follows at hfollows
    split at hfollows
    · exact .inl hfollows.symm
    · obtain ⟨_, step, rfl⟩ := hfollows
      exact .inr ⟨_, step⟩
  | providerPop _ due => exact .inr ⟨_, .pop due⟩
  | providerPush _ live room => exact .inr ⟨_, .push live room⟩
  | drop => exact .inr ⟨_, .drop⟩

/-! What the peer sent and was sent. -/

structure ServerInv (d : ServerSide sch) : Prop where
  session : (localSession sch).Run d.log d.session
  attached : d.attached = true ↔ Attached d.log
  before : d.attached = false → d.providerRead = [] ∧ d.providerWrote = []
  read : d.server.writeStream.popped = polledFrames d.log ++ d.providerRead
  sent : d.server.readStream.pushed = accepted d.log ++ d.providerWrote

theorem ServerOpened.inv (h : ServerOpened lib sch target d) : ServerInv d := by
  cases h with
  | waiting => exact ⟨.start rfl, by simp [Attached], fun _ => ⟨rfl, rfl⟩, rfl, rfl⟩
  | greeted =>
    have hgreet : (localSession sch).Run (startEvents sch) ⟨.ret true, ⟨false, false⟩⟩ :=
      Loop.run_call (L := acordRun sch) (.start rfl) Pushed.ok ⟨rfl, rfl⟩
    refine ⟨hgreet, by simp [Attached, startEvents], fun _ => ⟨rfl, rfl⟩, ?_, ?_⟩
    · exact congrArg _ (tryRead_sameInbound _).writeStream
    · exact (tryRead_sameInbound _).pushed

theorem ServerInv.over (h : ServerInv d) (ha : d.attached = true)
    {t : Server localEffects Exn LocalEnv} (hs : (localSession sch).step d.session e t) : False := by
  obtain ⟨xs, f, name, _, _, hret⟩ := attached_conversation h.session (h.attached.mp ha)
  generalize d.session = s at hs hret
  cases hs with
  | request => cases hret
  | call => cases hret

theorem popped_of_own {a : WsEvent} (own : ¬ a.dispatched) : a.popped = none ∧ a.pushed = none := by
  cases a with
  | push | pop => exact absurd trivial own
  | _ => exact ⟨rfl, rfl⟩

theorem serverStep_inv {a : ServerEvent sch} (hi : ServerInv d)
    (hs : ServerStep lib sch d a d') : ServerInv d' := by
  cases hs with
  | server step own =>
    obtain ⟨hpop, hpush⟩ := popped_of_own own
    have hread := step_popped step
    have hsent := step_pushed step
    rw [hpop, Option.toList_none, List.append_nil] at hread
    rw [hpush, Option.toList_none, List.append_nil] at hsent
    exact ⟨hi.session, hi.attached, hi.before, hread.trans hi.read, hsent.trans hi.sent⟩
  | @session e t h run io =>
    -- the coroutine makes no call once a provider has the streams
    have hfree : d.attached = false := by
      by_contra ha
      exact hi.over (by simpa using ha) run
    obtain ⟨_, hpop, hpush, _, hattached⟩ := io.frames
    obtain ⟨hread, hwrote⟩ := hi.before hfree
    have hpolled : d.server.writeStream.popped = polledFrames d.log := by
      rw [hi.read, hread, List.append_nil]
    have haccepted : d.server.readStream.pushed = accepted d.log := by
      rw [hi.sent, hwrote, List.append_nil]
    refine ⟨hi.session.next run, ?_, fun _ => ⟨hread, hwrote⟩, ?_, ?_⟩
    · show h.attached = true ↔ Attached (d.log ++ [e])
      rw [attached_append, ← hi.attached]
      exact hattached
    · show h.up.popped = polledFrames (d.log ++ [e]) ++ d.providerRead
      rw [hread, List.append_nil, polledFrames_append, ← hpolled]
      exact hpop
    · show h.down.pushed = accepted (d.log ++ [e]) ++ d.providerWrote
      rw [hwrote, List.append_nil, accepted_append, ← haccepted]
      exact hpush
  | @providerPop f rest own due =>
    have hown : d.attached ≠ false := by simp [own]
    refine ⟨hi.session, hi.attached, fun hn => absurd hn hown, ?_, hi.sent⟩
    show d.server.writeStream.popped ++ [f] = polledFrames d.log ++ (d.providerRead ++ [f])
    rw [hi.read, List.append_assoc]
  | @providerPush f own live room =>
    have hown : d.attached ≠ false := by simp [own]
    refine ⟨hi.session, hi.attached, fun hn => absurd hn hown, hi.read, ?_⟩
    show d.server.readStream.pushed ++ [f] = accepted d.log ++ (d.providerWrote ++ [f])
    rw [hi.sent, List.append_assoc]
  | drop => exact ⟨hi.session, hi.attached, hi.before, hi.read, hi.sent⟩

theorem server_inv (h : (serverSide lib sch target).Run tr d) : ServerInv d :=
  h.invariant (fun _ hd => ServerOpened.inv hd) fun _ _ _ => serverStep_inv

theorem server_cvt (h : (serverSide lib sch target).Run tr d) :
    d.server.cvt = if target = lit "/cbor" then .cbor lib else .json lib := by
  refine h.invariant (I := fun d => d.server.cvt = _) ?_ ?_
  · intro d hd
    cases hd with
    | waiting | greeted => exact (tryRead_sameInbound _).cvt
  · intro d a d' hi hs
    rcases hs.pumped with he | ⟨_, step⟩
    · exact he ▸ hi
    · exact (step_cvt step).trans hi

/-- Whatever a peer sends, in any order of the steps: what the coroutine polled and a provider read
after it are the first frames of its messages, up to the first that does not decode; all of what was
polled but the frame still being worked on was answered, by one right reply each; and what the peer
was sent are the state of the coroutine, these replies in their order and nothing else, each in the
format the peer asked for, up to the first that cannot be put in it. Where the frame being worked on
asked for a provider, what this writes follows. -/
theorem server_conversation (h : (serverSide lib sch target).Run tr d) :
    (d.server.cvt = if target = lit "/cbor" then .cbor lib else .json lib) ∧
    ∃ (xs : List (Exchange sch)) (pending : Option Ac.Frame) (last : List Ac.Frame),
      xs.flatMap Exchange.events <:+: d.log ∧
      polledFrames d.log = xs.map Exchange.request ++ pending.toList ∧
      xs.map Exchange.request ++ pending.toList ++ d.providerRead <+:
        decodedPrefix lib d.server.wsGot ∧
      d.server.wsSent.map some <+:
        (sch.stateChange Schema.id :: xs.map Exchange.reply ++ last).map d.server.cvt.encode ∧
      ((d.attached = false ∧ last = []) ∨
        ∃ f, pending = some f ∧ f.op = Schema.opLoadProvider ∧
          last = loadedFrame :: d.providerWrote) := by
  have hi := server_inv h
  have hpump := server_pump h
  refine ⟨server_cvt h, ?_⟩
  have hflow : InFlow lib d.server := (pump_flow hpump).1
  have hgot := hflow.pushed_prefix
  have hpolled := d.server.writeStream.popped_prefix.trans hgot
  have hsent := (pump_sentInOrder hpump).sent.trans (d.server.readStream.popped_prefix.map _)
  obtain ⟨xs, pending, hin, hpol, hacc⟩ := session_frames hi.session
  have hevents : xs.flatMap Exchange.events <:+: d.log := by
    rcases hin with rfl | ⟨rest, hlog⟩
    · exact List.nil_infix
    · exact ⟨startEvents sch, rest, hlog.symm⟩
  rw [hi.read, hpol] at hpolled
  rw [hi.sent] at hsent
  rcases hacc with ⟨hno, hpre⟩ | ⟨f, hf, hop, heq⟩
  · have hfree : d.attached = false := by
      by_contra ha
      exact hno (hi.attached.mp (by simpa using ha))
    rw [(hi.before hfree).2, List.append_nil] at hsent
    refine ⟨xs, pending, [], hevents, hpol, hpolled, ?_, .inl ⟨hfree, rfl⟩⟩
    rw [List.append_nil]
    exact hsent.trans (hpre.map _)
  · rw [heq, List.append_assoc, List.singleton_append] at hsent
    exact ⟨xs, pending, loadedFrame :: d.providerWrote, hevents, hpol, hpolled, hsent,
      .inr ⟨f, hf, hop, rfl⟩⟩

structure CommonWsSession.Idle (s : CommonWsSession) : Prop where
  wsSends : s.wsSends = 0
  readTasks : s.readTasks = 0
  writeTasks : s.writeTasks = 0
  read : ¬ s.readStream.readReady
  write : ¬ s.writeStream.writeReady

theorem CommonWsSession.Idle.of_counts {s : CommonWsSession} (hsends : s.wsSends = 0)
    (hreads : s.readTasks = 0) (hwrites : s.writeTasks = 0) (hopen : s.readStream.closed = false)
    (hbuf : s.readStream.buf = []) (hwaits : s.writeStream.writeWaits = 0) : s.Idle where
  wsSends := hsends
  readTasks := hreads
  writeTasks := hwrites
  read := fun ⟨_, h⟩ => by simp [hopen, hbuf] at h
  write := fun ⟨h, _⟩ => by simp [hwaits] at h

structure ServerSide.Resting (d : ServerSide sch) : Prop where
  server : d.server.Idle
  session : d.session = ⟨.ret true, ⟨false, false⟩⟩
  polled : d.server.writeStream.buf = []
  live : d.server.writeStream.closed = false

def frameJson (f : Ac.Frame) : Str :=
  let data := match f.data with
    | .str s => lit "\"" ++ s ++ lit "\""
    | _ => lit "null"
  lit "\x7b\"data\":" ++ data ++ lit ",\"op\":\"" ++ f.op ++ lit "\"\x7d"

def stateFrame : Ac.Frame := sampleSchema.stateChange Schema.id

def pageLib : DictLib where
  parse := sampleLib.parse
  dump
    | .object [(_, .str op), (_, data)] => .ok (frameJson ⟨op, data⟩)
    | _ => .error (.error (lit "type_error.302"))
  fromCbor := sampleLib.fromCbor
  toCbor := sampleLib.toCbor

theorem page_talked : ∃ tr d, (serverSide pageLib sampleSchema (lit "/")).Run tr d ∧
    d.server.wsGot = [.text hiJson, .binary [0xA1]] ∧
    d.server.wsSent = [.text (frameJson stateFrame), .text (frameJson (unknownOp hiFrame.op))] ∧
    d.server.readStream.closed = false ∧ d.server.escaped = [] ∧ d.Resting ∧
    polledFrames d.log = [hiFrame] := by
  have h0 : (serverSide pageLib sampleSchema (lit "/")).init _ := .greeted
  have h1 := (System.Run.start h0).next (a := ServerEvent.server (.wsReceived (.text hiJson)))
    (.server (.wsReceived (by decide)) id)
  have h2 := h1.next (a := ServerEvent.session (.request (Polled.frame hiFrame)))
    (.session (Loop.Step.request (L := acordRun sampleSchema) (r := Polled.frame hiFrame) rfl)
      (.polled (Eq.refl [_])))
  have h3 := h2.next (a := ServerEvent.session (.call (.push (unknownOp hiFrame.op)) Pushed.ok))
    (.session (.call ⟨rfl, rfl⟩) (.pushed rfl (by decide)))
  have h4 := h3.next (a := ServerEvent.server .wsCompletedSend)
    (.server (.wsCompletedSend (by decide)) id)
  have h5 := h4.next (a := ServerEvent.server .wsCompletedSend)
    (.server (.wsCompletedSend (by decide)) id)
  have h6 := h5.next (a := ServerEvent.server (.wsReceived (.binary [0xA1])))
    (.server (.wsReceived (by decide)) id)
  exact ⟨_, _, h6, rfl, rfl, rfl, rfl, ⟨.of_counts rfl rfl rfl rfl rfl rfl, rfl, rfl, rfl⟩, rfl⟩

theorem server_conversation_page : ∃ d : ServerSide sampleSchema,
    d.server.wsSent = [.text (frameJson stateFrame), .text (frameJson (unknownOp hiFrame.op))] ∧
    ∃ x : Exchange sampleSchema, x.events <:+: d.log ∧ x.request = hiFrame ∧
      x.reply = unknownOp hiFrame.op := by
  obtain ⟨_, d, h, _, hsent, _, _, _, hone⟩ := page_talked
  obtain ⟨_, xs, pending, last, hlog, hpol, _, htold, hlast⟩ := server_conversation h
  rw [hone] at hpol
  have hne : xs ≠ [] := by
    rintro rfl
    rcases hlast with ⟨_, rfl⟩ | ⟨f, rfl, hop, _⟩
    · -- the peer was sent more than the state
      rw [hsent] at htold
      exact absurd htold.length_le (by simp)
    · obtain rfl := List.head_eq_of_cons_eq hpol
      exact absurd hop (by decide)
  obtain ⟨x, rfl, _, hx⟩ := one_exchange hne hpol
  have hreply := x.right.unknown (hx ▸ by decide) (hx ▸ by decide)
  rw [List.flatMap_singleton] at hlog
  exact ⟨d, hsent, x, hlog, hx, hx ▸ hreply⟩

end Acord
