import Acord.Dict
import Acord.Lib.Coroutine
import Acord.Lib.Memory

/-! `sync_generator` with its promise and the memory of its callers: a producer coroutine writes
into the caller's buffer through the span in the promise. -/

namespace Acord.Coro
open Ac RequestLoop

structure Span where
  data : Nat
  size : Nat

def Span.bytes (s : Span) (mem : Nat → UInt8) : List UInt8 := Memory.read mem s.data s.size

/-- `astl::eager_coro_helper::promise`: `unhandled_exception` rethrows or keeps the exception, and
`rethrow_if_exception` throws one that was kept. -/
structure EagerCoroHelper where
  State : Type
  init : State
  onSuspend : State → State
  unhandledException : State → Exn → Except Exn State
  rethrowIfException : State → Option Exn × State

inductive EagerCoroHelper.Suspended (H : EagerCoroHelper) : H.State → Prop
  | first : H.Suspended (H.onSuspend H.init)
  | again {p : H.State} (h : H.Suspended p) : H.Suspended (H.onSuspend p)

structure EagerCoroHelper.Documented (H : EagerCoroHelper) : Prop where
  eager : ∀ e, H.unhandledException H.init e = .error e
  kept : ∀ p e, H.Suspended p → ∃ q, H.unhandledException p e = .ok q ∧
    (H.rethrowIfException q).1 = some e
  quiet : ∀ p, H.Suspended p → H.rethrowIfException p = (none, p)

inductive ChunkOp
  | yieldValue (size : Option Nat)
  | chunkBuf
  | read
  | set (i : Nat) (b : UInt8)
  | subspan (count : Nat)

abbrev chunkEffects : Effects where
  Op := ChunkOp
  Res
    | .read => List UInt8
    | _ => Unit

abbrev CoroBody := Prog chunkEffects Exn Unit

variable (H : EagerCoroHelper)

structure PromiseType where
  base : H.State
  size : Option Nat
  chunkBuf : Span

structure Resuming where
  promise : PromiseType H
  mem : Nat → UInt8

namespace PromiseType

def construct : PromiseType H := ⟨H.init, none, ⟨0, 0⟩⟩

variable {H} (p : PromiseType H)

def yieldValue (size : Option Nat) : Option (PromiseType H) :=
  -- `assert(!m_size)`
  if p.size.isSome then none else some { p with size := size }

def awaitTransform : PromiseType H := { p with base := H.onSuspend p.base }

end PromiseType

def chunkHost : Host chunkEffects (Resuming H) where
  -- awaiting a chunk always suspends; what is written behind the span is undefined behaviour
  handle s
    | .yieldValue size =>
      match s.promise.yieldValue size with
      | some p => .answered () { s with promise := p }
      | none => .undefined
    | .chunkBuf => .suspended { s with promise := s.promise.awaitTransform }
    | .read => .answered (s.promise.chunkBuf.bytes s.mem) s
    | .set i b =>
      if i < s.promise.chunkBuf.size then
        .answered () { s with mem := Function.update s.mem (s.promise.chunkBuf.data + i) b }
      else .undefined
    | .subspan count =>
      if count ≤ s.promise.chunkBuf.size then
        .answered () { s with promise := { s.promise with
          chunkBuf := ⟨s.promise.chunkBuf.data, count⟩ } }
      else .undefined

structure SyncGenerator where
  promise : PromiseType H
  handle : Option CoroBody

namespace SyncGenerator
variable {H}

def settle (p : PromiseType H) :
    Stop chunkEffects Exn Unit → Outcome Exn Unit × SyncGenerator H
  -- control returns to the resumer, with an exception where `unhandled_exception` rethrows
  | .suspended .chunkBuf k => (.ret (), ⟨p, some (k ())⟩)
  | .ended (.ret _) => (.ret (), ⟨p, none⟩)
  | .ended (.throw e) =>
    match H.unhandledException p.base e with
    | .error e => (.throw e, ⟨p, none⟩)
    | .ok base => (.ret (), ⟨{ p with base := base }, none⟩)
  | _ => (.crash, ⟨p, none⟩)

def create (body : CoroBody) (mem : Nat → UInt8) :
    Outcome Exn (SyncGenerator H) × (Nat → UInt8) :=
  -- the initial suspend is none, so the coroutine runs up to its first await
  let (stop, s) := body.advance (chunkHost H) ⟨.construct H, mem⟩
  match settle s.promise stop with
  | (.ret _, g) => (.ret g, s.mem)
  | (.throw e, _) => (.throw e, s.mem)
  | (.crash, _) => (.crash, s.mem)

variable (g : SyncGenerator H)

def size : Option Nat := g.promise.size

def done : Bool := g.handle.isNone

def rethrowIfException : Outcome Exn Span × SyncGenerator H :=
  match H.rethrowIfException g.promise.base with
  | (some e, base) => (.throw e, { g with promise := { g.promise with base := base } })
  | (none, base) =>
    (.ret g.promise.chunkBuf, { g with promise := { g.promise with base := base } })

def getNextChunk (buffer : Span) (mem : Nat → UInt8) :
    (Outcome Exn Span × SyncGenerator H) × (Nat → UInt8) :=
  match g.handle with
  | none => ((.ret ⟨0, 0⟩, g), mem)
  | some body =>
    let (stop, s) := body.advance (chunkHost H) ⟨{ g.promise with chunkBuf := buffer }, mem⟩
    match settle s.promise stop with
    | (.ret _, g) => (g.rethrowIfException, s.mem)
    | (.throw e, g) => ((.throw e, g), s.mem)
    | (.crash, g) => ((.crash, g), s.mem)

end SyncGenerator
end Acord.Coro
