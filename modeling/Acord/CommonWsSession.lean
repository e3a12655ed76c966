import Acord.Lib.Channel
import Acord.Lib.Transition
import Acord.FrameCvt

/-! One websocket session: the two loops that move frames between the websocket and the
dispatch streams, as handlers on an explicit state, and the events that run them. -/

namespace Acord
open Ac Channels Transition

/-- `CommonWsSession` with what its base class and executor hold for it: the receives and sends
under way, the tasks posted and not yet run, how often `wsClose` was called, every message
passed to `wsSend` and delivered by the websocket, and the exceptions that left a handler. -/
structure CommonWsSession where
  cvt : FrameCvt
  readStream : Channel Ac.Frame
  writeStream : Channel Ac.Frame
  receiving : Option Ac.Frame
  sending : Option Frame
  wsReceives : Nat
  wsSends : Nat
  writeTasks : Nat
  readTasks : Nat
  wsCloses : Nat
  wsSent : List Message
  wsGot : List Message
  escaped : List Exn

namespace CommonWsSession
variable (lib : DictLib) (s : CommonWsSession)

def wsReceive : CommonWsSession := { s with wsReceives := s.wsReceives + 1 }

def wsSend (m : Message) : CommonWsSession :=
  { s with wsSends := s.wsSends + 1, wsSent := s.wsSent ++ [m] }

def wsClose : CommonWsSession := { s with wsCloses := s.wsCloses + 1 }

def escape (e : Exn) : CommonWsSession := { s with escaped := s.escaped ++ [e] }

def tryWriteToDispatch : CommonWsSession :=
  match s.receiving with
  | none => s
  | some f =>
    match s.writeStream.write f with
    | (.blocked, ch) => { s with writeStream := ch }
    | (.closed, ch) => wsClose { s with writeStream := ch }
    | (.success, ch) => wsReceive { s with writeStream := ch, receiving := none }

def received (m : Message) : CommonWsSession :=
  -- `received<T>`. A message that does not decode leaves the frame just emplaced behind.
  match decode lib m with
  | .error _ => wsClose { s with receiving := some ⟨[], .null⟩ }
  | .ok f => tryWriteToDispatch { s with receiving := some f }

def doSend : CommonWsSession :=
  match s.sending with
  | none => s
  | some buf => if buf.text then s.wsSend (.text buf.textBuf) else s.wsSend (.binary buf.binaryBuf)

def tryReadFromDispatch : CommonWsSession :=
  match s.sending with
  | some _ => s
  | none =>
    match s.readStream.read with
    | (.success f, ch) =>
      match s.cvt.fromAcFrame .fresh f with
      | .ok buf => doSend { s with readStream := ch, sending := some buf }
      -- the conversion is not guarded: `sending` keeps the frame emplaced before the read
      | .error e => escape { s with readStream := ch, sending := some .fresh } e
    | (.closed, ch) => wsClose { s with readStream := ch, sending := none }
    | (.blocked, ch) => { s with readStream := ch, sending := none }

def wsCompletedSend : CommonWsSession := tryReadFromDispatch { s with sending := none }

/-- `wsClosed`, and equally the other end dropping its endpoint: both streams are closed. -/
def wsClosed : CommonWsSession :=
  { s with readStream := s.readStream.close, writeStream := s.writeStream.close }

end CommonWsSession

def CommonWsSession.construct (cvt : FrameCvt) (readStream writeStream : Channel Ac.Frame) :
    CommonWsSession :=
  ⟨cvt, readStream, writeStream, none, none, 0, 0, 0, 0, 0, [], [], []⟩

def CommonWsSession.wsOpened (lib : DictLib) (target : Str) (s : CommonWsSession) :
    CommonWsSession :=
  wsReceive { s with cvt := if target = lit "/cbor" then .cbor lib else .json lib }

def CommonWsSession.unopened (readStream writeStream : Channel Ac.Frame) : CommonWsSession :=
  .construct ⟨fun _ _ => .error (.error [])⟩ readStream writeStream

def serverWsOpened (lib : DictLib) (target : Str) (readStream writeStream : Channel Ac.Frame) :
    CommonWsSession :=
  -- the server session's `wsOpened`: it makes the two channels towards the local session, whose
  -- end of them is in use as soon as it is connected, and starts reading
  let s := CommonWsSession.wsOpened lib target (.unopened (.create 0) (.create 0))
  { s with readStream := readStream, writeStream := writeStream }.tryReadFromDispatch

def clientWsOpened (lib : DictLib) (target : Str) (readStream writeStream : Channel Ac.Frame) :
    CommonWsSession :=
  (CommonWsSession.wsOpened lib target (.unopened readStream writeStream)).tryReadFromDispatch

/-- What can happen to a session. A push and a pop are the other end of the dispatch
channels; a fire is a channel calling a wait callback, which posts the matching task. -/
inductive WsEvent
  | wsReceived (m : Message)
  | wsCompletedSend
  | writeTask
  | readTask
  | fireWrite
  | fireRead
  | push (f : Ac.Frame)
  | pop (f : Ac.Frame)
  | drop
  | wsClosed

open CommonWsSession in
inductive WsStep (lib : DictLib) : CommonWsSession → WsEvent → CommonWsSession → Prop
  | wsReceived {s : CommonWsSession} {m : Message} (due : 0 < s.wsReceives) :
      WsStep lib s (.wsReceived m)
        (received lib { s with wsReceives := s.wsReceives - 1, wsGot := s.wsGot ++ [m] } m)
  | wsCompletedSend {s : CommonWsSession} (due : 0 < s.wsSends) :
      WsStep lib s .wsCompletedSend (wsCompletedSend { s with wsSends := s.wsSends - 1 })
  | writeTask {s : CommonWsSession} (due : 0 < s.writeTasks) :
      WsStep lib s .writeTask (tryWriteToDispatch { s with writeTasks := s.writeTasks - 1 })
  | readTask {s : CommonWsSession} (due : 0 < s.readTasks) :
      WsStep lib s .readTask (tryReadFromDispatch { s with readTasks := s.readTasks - 1 })
  | fireWrite {s : CommonWsSession} (due : s.writeStream.writeReady) :
      WsStep lib s .fireWrite
        { s with writeStream := s.writeStream.fireWrite, writeTasks := s.writeTasks + 1 }
  | fireRead {s : CommonWsSession} (due : s.readStream.readReady) :
      WsStep lib s .fireRead
        { s with readStream := s.readStream.fireRead, readTasks := s.readTasks + 1 }
  | push {s : CommonWsSession} {f : Ac.Frame} (live : s.readStream.closed = false)
      (room : ¬ s.readStream.full) :
      WsStep lib s (.push f) { s with readStream := s.readStream.push f }
  | pop {s : CommonWsSession} {f : Ac.Frame} {rest : List Ac.Frame}
      (due : s.writeStream.buf = f :: rest) :
      WsStep lib s (.pop f) { s with writeStream := s.writeStream.pop f rest due }
  | drop {s : CommonWsSession} : WsStep lib s .drop s.wsClosed
  | wsClosed {s : CommonWsSession} : WsStep lib s .wsClosed s.wsClosed

structure Unused (readStream writeStream : Channel Ac.Frame) : Prop where
  popped : readStream.popped = []
  pushed : writeStream.pushed = []
  readWaits : readStream.readWaits = 0
  writeWaits : writeStream.writeWaits = 0

theorem unused_create (readCap writeCap : Nat) : Unused (.create readCap) (.create writeCap) :=
  ⟨rfl, rfl, rfl, rfl⟩

inductive WsOpened (lib : DictLib) : CommonWsSession → Prop
  | server (target : Str) {readStream writeStream : Channel Ac.Frame}
      (fresh : Unused readStream writeStream) :
      WsOpened lib (serverWsOpened lib target readStream writeStream)
  | client (target : Str) {readStream writeStream : Channel Ac.Frame}
      (fresh : Unused readStream writeStream) :
      WsOpened lib (clientWsOpened lib target readStream writeStream)

def pump (lib : DictLib) : System CommonWsSession WsEvent := ⟨WsOpened lib, WsStep lib⟩

end Acord
