import Acord.Schema
import Acord.Lib.RequestLoop

/-! The coroutine that serves a client until it loads a provider: the requests it handles, each
with its error path, over a client endpoint and a connection to the asset manager. -/

namespace Acord
open Ac RequestLoop Transition

def opError : Str := lit "error"

inductive Pushed
  | ok
  | closed
  | detached

inductive Polled
  | frame (f : Ac.Frame)
  | closed
  | detached

/-- What the coroutine asks of its client `io`, of the asset manager `aio` and of the backend. -/
inductive LocalOp
  | push (f : Ac.Frame)
  | poll
  | connect (id : Str)
  | aioPush (f : Ac.Frame)
  | aioPoll
  | detach
  | attach (name : Str)

abbrev LocalOp.Res : LocalOp → Type
  | push _ | aioPush _ => Pushed
  | poll | aioPoll => Polled
  | connect _ | attach _ => Except Exn Unit
  | detach => Unit

abbrev localEffects : Effects := ⟨LocalOp, LocalOp.Res⟩

abbrev LocalProg (α : Type) := Prog localEffects Exn α

def Pushed.result : Pushed → LocalProg Unit
  | .ok => pure ()
  | .closed => .throw .streamClosed
  | .detached => .crash

def Polled.result : Polled → LocalProg Ac.Frame
  | .frame f => pure f
  | .closed => .throw .streamClosed
  | .detached => .crash

namespace Io

def push (f : Ac.Frame) : LocalProg Unit := .call (.push f) fun r => Pushed.result r

def aioPush (f : Ac.Frame) : LocalProg Unit := .call (.aioPush f) fun r => Pushed.result r

def aioPoll : LocalProg Ac.Frame := .call .aioPoll fun r => Polled.result r

def connect (id : Str) : LocalProg Unit := .call (.connect id) fun r => .ofExcept r

def detach : LocalProg Unit := .call .detach fun _ => .ret ()

def attach (name : Str) : LocalProg Unit := .call (.attach name) fun r => .ofExcept r

end Io

def acordMakeAssetsAvailable (urls : List Str) : LocalProg Unit := do
  Io.connect Amgr.interfaceId
  let _state ← Io.aioPoll
  Io.aioPush ⟨Amgr.opMakeAssetsAvailable, .strings urls⟩
  let result ← Io.aioPoll
  Io.push { result with op := Schema.opMakeAssetsAvailable }

def errorFrame (what : Str) : Ac.Frame := ⟨opError, .str what⟩

def unknownOp (op : Str) : Ac.Frame := errorFrame (lit "Unknown op: " ++ op)

/-- The body of the loop of `Acord_run`: `true` goes on, `false` is `co_return`. -/
def serve (sch : SchemaLib) (polled : Polled) : LocalProg Bool := do
  let f ← polled.result
  if f.op = Schema.opMakeAssetsAvailable then
    acordMakeAssetsAvailable (← .ofExcept (sch.urls f.data))
    return true
  else if f.op = Schema.opLoadProvider then
    let error ← Prog.tryCatch (do
        let name ← .ofExcept (sch.provider f.data)
        Io.push ⟨Schema.opLoadProvider, .null⟩
        Io.detach
        Io.attach name
        return none)
      fun e => return some e.what
    match error with
    | none => return false
    | some error =>
      Io.push (errorFrame error)
      return true
  else
    Io.push (unknownOp f.op)
    return true

def catchClosed (p : LocalProg Bool) : LocalProg Bool :=
  -- the outer handler: a closed stream ends the coroutine, other exceptions leave it
  p.tryCatch fun
    | .streamClosed => return false
    | e => .throw e

def acordRun (sch : SchemaLib) : Loop localEffects Exn where
  start := catchClosed do
    Io.push (sch.stateChange Schema.id)
    return true
  request := .poll
  handle polled := catchClosed (serve sch polled)

structure LocalEnv where
  detached : Bool
  closed : Bool

def LocalEnv.allow (w : LocalEnv) : (op : LocalOp) → op.Res → Prop
  -- an endpoint without streams answers nothing else, and a closed one takes no frame
  | .push _, .ok => w.detached = false ∧ w.closed = false
  | .push _, .closed => w.detached = false
  | .push _, .detached => w.detached = true
  | .poll, .frame _ => w.detached = false
  | .poll, .closed => w.detached = false
  | .poll, .detached => w.detached = true
  | .aioPush _, r => r ≠ .detached
  | .aioPoll, r => r ≠ .detached
  | .connect _, _ => True
  | .detach, _ => True
  | .attach _, _ => True

def LocalEnv.next (w : LocalEnv) : (op : LocalOp) → op.Res → LocalEnv
  | .push _, .closed => { w with closed := true }
  | .poll, .closed => { w with closed := true }
  | .detach, _ => { w with detached := true }
  | _, _ => w

def localEnv : Env localEffects LocalEnv := ⟨LocalEnv.allow, LocalEnv.next⟩

abbrev LocalEvent (sch : SchemaLib) := Event (acordRun sch)

def localSession (sch : SchemaLib) : System (Server localEffects Exn LocalEnv) (LocalEvent sch) :=
  (acordRun sch).system localEnv ⟨false, false⟩

end Acord
