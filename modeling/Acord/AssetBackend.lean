import Acord.Conversation
import Acord.AssetRequests
import Acord.Lib.Channel

/-! The coroutines of all clients and the asset manager they ask for assets: each request dials a
session of its own over two bounded channels and hangs up when its handler is through. -/

namespace Acord
open Ac Channels RequestLoop Transition

variable {ι : Type} [DecidableEq ι] {sch : SchemaLib}

/-- `conn k` is the session that the endpoint `aio` of the client `k` is connected to, `sessions`
the number of those dialled so far; `up i` is what a session reads, `down i` what it writes. -/
structure AssetBackend (ι : Type) (sch : SchemaLib) where
  coro : ι → Server localEffects Exn LocalEnv
  log : ι → List (LocalEvent sch)
  conn : ι → Option Nat
  service : AssetService
  sessions : Nat
  up : Nat → Channel Ac.Frame
  down : Nat → Channel Ac.Frame

inductive BackendEvent (ι : Type) (sch : SchemaLib)
  | client (k : ι) (e : LocalEvent sch)
  | service (e : AssetEvent)

namespace AssetBackend
variable (b : AssetBackend ι sch)

def setUp (i : Nat) (c : Channel Ac.Frame) : AssetBackend ι sch :=
  { b with up := Function.update b.up i c }

def setDown (i : Nat) (c : Channel Ac.Frame) : AssetBackend ι sch :=
  { b with down := Function.update b.down i c }

def shut (i : Nat) : AssetBackend ι sch := (b.setUp i (b.up i).close).setDown i (b.down i).close

def dial (k : ι) : AssetBackend ι sch :=
  { b with conn := Function.update b.conn k (some b.sessions), sessions := b.sessions + 1 }

def hangUp (k : ι) : AssetBackend ι sch :=
  match b.conn k with
  | none => b
  | some i => { b.shut i with conn := Function.update b.conn k none }

def advance (k : ι) (e : LocalEvent sch) (s : Server localEffects Exn LocalEnv) :
    AssetBackend ι sch :=
  { b with coro := Function.update b.coro k s, log := Function.update b.log k (b.log k ++ [e]) }

end AssetBackend

def LocalEvent.Elsewhere : LocalEvent sch → Prop
  | .call (.connect _) (.ok _) | .call (.aioPush _) _ | .call .aioPoll _ => False
  | _ => True

/-- What a call of a coroutine does to its connection. A push waits for room, a poll for a
frame. -/
inductive Dials (sch : SchemaLib) (k : ι) :
    AssetBackend ι sch → LocalEvent sch → AssetBackend ι sch → Prop
  | connected {b : AssetBackend ι sch} {id : Str} :
      Dials sch k b (.call (.connect id) (Except.ok ())) (b.dial k)
  | wrote {b : AssetBackend ι sch} {i : Nat} {f : Ac.Frame} (own : b.conn k = some i)
      (live : (b.up i).closed = false) (room : ¬ (b.up i).full) :
      Dials sch k b (.call (.aioPush f) Pushed.ok) (b.setUp i ((b.up i).push f))
  | writeClosed {b : AssetBackend ι sch} {i : Nat} {f : Ac.Frame} (own : b.conn k = some i)
      (closed : (b.up i).closed = true) :
      Dials sch k b (.call (.aioPush f) Pushed.closed) b
  | read {b : AssetBackend ι sch} {i : Nat} {f : Ac.Frame} {rest : List Ac.Frame}
      (own : b.conn k = some i) (due : (b.down i).buf = f :: rest) :
      Dials sch k b (.call .aioPoll (Polled.frame f)) (b.setDown i ((b.down i).pop f rest due))
  | readClosed {b : AssetBackend ι sch} {i : Nat} (own : b.conn k = some i)
      (empty : (b.down i).buf = []) (closed : (b.down i).closed = true) :
      Dials sch k b (.call .aioPoll Polled.closed) b
  | elsewhere {b : AssetBackend ι sch} {e : LocalEvent sch} (apart : LocalEvent.Elsewhere e) :
      Dials sch k b e b

inductive BackendStep (lib : FrameLib) (sch : SchemaLib) :
    AssetBackend ι sch → BackendEvent ι sch → AssetBackend ι sch → Prop
  -- the coroutine of a session awaits what the session has to push or poll next, and is over when
  -- it finds a stream closed or a command ends in an exception
  | called {b c : AssetBackend ι sch} {k : ι} {e : LocalEvent sch}
      {s : Server localEffects Exn LocalEnv} (run : (localSession sch).step (b.coro k) e s)
      (io : Dials sch k b e c) (on : ¬ s.prog.Ended) :
      BackendStep lib sch b (.client k e) (c.advance k e s)
  | served {b c : AssetBackend ι sch} {k : ι} {e : LocalEvent sch}
      {s : Server localEffects Exn LocalEnv} (run : (localSession sch).step (b.coro k) e s)
      (io : Dials sch k b e c) (through : s.prog.Ended) :
      BackendStep lib sch b (.client k e) ((c.advance k e s).hangUp k)
  | pushed {b : AssetBackend ι sch} {i : Nat} {f : Ac.Frame} {s : AssetService}
      (step : AssetStep lib b.service (.pushed i f) s) (dialled : i < b.sessions)
      (live : (b.down i).closed = false) (room : ¬ (b.down i).full) :
      BackendStep lib sch b (.service (.pushed i f))
        ({ b with service := s }.setDown i ((b.down i).push f))
  | polled {b : AssetBackend ι sch} {i : Nat} {cmd reply : Ac.Frame} {rest : List Ac.Frame}
      {os : Nat → Outcomes} {s : AssetService}
      (step : AssetStep lib b.service (.polled i cmd os) s) (dialled : i < b.sessions)
      (due : (b.up i).buf = cmd :: rest) (ok : s.sessions i = .replying cmd reply) :
      BackendStep lib sch b (.service (.polled i cmd os))
        ({ b with service := s }.setUp i ((b.up i).pop cmd rest due))
  | failed {b : AssetBackend ι sch} {i : Nat} {cmd : Ac.Frame} {rest : List Ac.Frame}
      {os : Nat → Outcomes} {s : AssetService}
      (step : AssetStep lib b.service (.polled i cmd os) s) (dialled : i < b.sessions)
      (due : (b.up i).buf = cmd :: rest) (ko : ∀ reply, s.sessions i ≠ .replying cmd reply) :
      BackendStep lib sch b (.service (.polled i cmd os))
        (({ b with service := s }.setUp i ((b.up i).pop cmd rest due)).shut i)
  | closed {b : AssetBackend ι sch} {i : Nat} {s : AssetService}
      (step : AssetStep lib b.service (.closed i) s) (dialled : i < b.sessions)
      (found : match b.service.sessions i with
        | .polling => (b.up i).buf = [] ∧ (b.up i).closed = true
        | .greeting | .replying _ _ => (b.down i).closed = true
        | _ => False) :
      BackendStep lib sch b (.service (.closed i)) ({ b with service := s }.shut i)

def assetBackend (ι : Type) [DecidableEq ι] (lib : FrameLib) (sch : SchemaLib) (cap : Nat)
    (dir : AssetDir) (fs : Fs) : System (AssetBackend ι sch) (BackendEvent ι sch) where
  init b := b =
    { coro := fun _ => ⟨(acordRun sch).start, ⟨false, false⟩⟩
      log := fun _ => []
      conn := fun _ => none
      service := ⟨.construct dir fs, fun _ => .greeting⟩
      sessions := 0
      up := fun _ => .create cap
      down := fun _ => .create cap }
  step := BackendStep lib sch

end Acord
