import Acord.Dict

/-! The generator of chunks: a producer coroutine, resumed with the buffer of each call, and the
promise through which it hands over the size, the chunks and an exception. -/

namespace Acord
open Ac

inductive Resumed (σ : Type)
  | awaiting (s : σ)
  | returned
  | threw (e : Exn)

abbrev Producer (σ : Type) := σ → List UInt8 → List UInt8 × Resumed σ

structure SyncGenerator (σ : Type) where
  size : Option Nat
  chunkBuf : List UInt8
  exception : Option Exn
  handle : Option σ

namespace SyncGenerator
variable {σ : Type} (g : SyncGenerator σ)

def land : Resumed σ → SyncGenerator σ
  | .awaiting s => { g with handle := some s }
  | .returned => { g with handle := none }
  | .threw e => { g with exception := some e, handle := none }

def create (size : Option Nat) : Resumed σ → Except Exn (SyncGenerator σ)
  -- the coroutine starts eagerly: what it throws before its first await leaves the creating call
  | .threw e => .error e
  | r => .ok (land ⟨size, [], none, none⟩ r)

def done : Bool := g.handle.isNone

def rethrowIfException : Except Exn (List UInt8) :=
  match g.exception with
  | some e => .error e
  | none => .ok g.chunkBuf

def getNextChunk (resume : Producer σ) (buffer : List UInt8) :
    Except Exn (List UInt8) × SyncGenerator σ :=
  match g.handle with
  | none => (.ok [], g)
  | some s =>
    let (chunk, r) := resume s buffer
    let g := land { g with chunkBuf := chunk } r
    (g.rethrowIfException, g)

def drain (resume : Producer σ) (buffers : Nat → List UInt8) :
    Nat → Nat → SyncGenerator σ → Option (Except Exn (List (List UInt8)) × SyncGenerator σ)
  | n, i, g =>
    if g.done then some (.ok [], g)
    else
      match n with
      | 0 => none
      | n + 1 =>
        match g.getNextChunk resume (buffers i) with
        | (.error e, g) => some (.error e, g)
        | (.ok chunk, g) =>
          match drain resume buffers n (i + 1) g with
          | some (.ok chunks, g) => some (.ok (chunk :: chunks), g)
          | other => other

end SyncGenerator
end Acord
