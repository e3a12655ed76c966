import Acord.ChunkPromise

/-! Producers as scripts, and what a generator makes of one: its calls follow the script step by
step, whatever their buffers are and however many there are. -/

namespace Acord.Coro
open Ac RequestLoop

/-- A producer from some point on. When it has awaited a buffer it throws before it writes, or
writes bytes that fit, truncates the span to them and goes on, all as what is in the buffer has
it. -/
inductive Script
  | ret
  | throw (e : Exn)
  | await (refuse : List UInt8 → Option Exn)
      (write : (buf : List UInt8) → { bytes : List UInt8 // bytes.length ≤ buf.length })
      (rest : List UInt8 → Script)

def writeBytes : Nat → List UInt8 → CoroBody
  | _, [] => .ret ()
  | i, b :: bs => .call (.set i b) fun _ => writeBytes (i + 1) bs

namespace Script

def resumed (refuse : List UInt8 → Option Exn)
    (write : (buf : List UInt8) → { bytes : List UInt8 // bytes.length ≤ buf.length })
    (next : List UInt8 → CoroBody) : CoroBody :=
  .call .read fun (buf : List UInt8) =>
    match refuse buf with
    | some e => .throw e
    | none => writeBytes 0 (write buf) >>= fun _ =>
      .call (.subspan (write buf).1.length) fun _ => next buf

def body : Script → CoroBody
  | ret => .ret ()
  | throw e => .throw e
  | await refuse write rest =>
    .call .chunkBuf fun _ => resumed refuse write fun buf => (rest buf).body

def coroutine (size : Option (Option Nat)) (s : Script) : CoroBody :=
  match size with
  | some size => .call (.yieldValue size) fun _ => s.body
  | none => s.body

def ended : Script → Bool
  | await _ _ _ => false
  | _ => true

def threw : Script → Bool
  | throw _ => true
  | _ => false

def next : Script → List UInt8 → Script
  | await refuse _ rest, buf =>
    match refuse buf with
    | some e => throw e
    | none => rest buf
  | s, _ => s

def after (s : Script) (bufs : List (List UInt8)) : Script := bufs.foldl next s

def written : Script → List UInt8 → List UInt8
  | await _ write _, buf => write buf
  | _, _ => []

theorem ended_of_threw {s : Script} (h : s.threw = true) : s.ended = true := by
  cases s with
  | throw e => rfl
  | ret => cases h
  | await refuse write rest => cases h

theorem not_threw {s : Script} (h : s.ended = false) : s.threw = false := by
  cases s with
  | throw e => cases h
  | _ => rfl

theorem next_ended {s : Script} (h : s.ended = true) (buf : List UInt8) : s.next buf = s := by
  cases s with
  | await refuse write rest => cases h
  | _ => rfl

end Script

/-! One run of the coroutine. -/

variable {H : EagerCoroHelper} {p : PromiseType H} {mem : Nat → UInt8}

theorem advance_writeBytes {i : Nat} {bs : List UInt8} (h : i + bs.length ≤ p.chunkBuf.size) :
    (writeBytes i bs).advance (chunkHost H) ⟨p, mem⟩ =
      (.ended (.ret ()), ⟨p, Memory.write mem (p.chunkBuf.data + i) bs⟩) := by
  induction bs generalizing i mem with
  | nil => rfl
  | cons b bs ih =>
    rw [List.length_cons] at h
    have hi : i < p.chunkBuf.size := by omega
    have hset : (chunkHost H).handle ⟨p, mem⟩ (.set i b) =
        .answered () ⟨p, Function.update mem (p.chunkBuf.data + i) b⟩ := if_pos hi
    have htail : i + 1 + bs.length ≤ p.chunkBuf.size := by omega
    rw [writeBytes, Prog.advance_answered hset]
    exact ih htail

section
variable {refuse : List UInt8 → Option Exn}
  {write : (buf : List UInt8) → { bytes : List UInt8 // bytes.length ≤ buf.length }}
  {next : List UInt8 → CoroBody}

theorem advance_refused {e : Exn} (h : refuse (p.chunkBuf.bytes mem) = some e) :
    (Script.resumed refuse write next).advance (chunkHost H) ⟨p, mem⟩ =
      (.ended (.throw e), ⟨p, mem⟩) := by
  have hread : (chunkHost H).handle ⟨p, mem⟩ .read =
      .answered (p.chunkBuf.bytes mem) ⟨p, mem⟩ := rfl
  rw [Script.resumed, Prog.advance_answered hread]
  simp only [h, Prog.advance]

theorem advance_resumed (h : refuse (p.chunkBuf.bytes mem) = none) :
    (Script.resumed refuse write next).advance (chunkHost H) ⟨p, mem⟩ =
      (next (p.chunkBuf.bytes mem)).advance (chunkHost H)
        ⟨{ p with chunkBuf := ⟨p.chunkBuf.data, (write (p.chunkBuf.bytes mem)).1.length⟩ },
          Memory.write mem p.chunkBuf.data (write (p.chunkBuf.bytes mem)).1⟩ := by
  have hread : (chunkHost H).handle ⟨p, mem⟩ .read =
      .answered (p.chunkBuf.bytes mem) ⟨p, mem⟩ := rfl
  rw [Script.resumed, Prog.advance_answered hread]
  generalize hbuf : p.chunkBuf.bytes mem = buf at h ⊢
  obtain ⟨bytes, hfits⟩ := write buf
  have hsize : buf.length = p.chunkBuf.size := by
    rw [← hbuf]
    exact Memory.length_read mem _ _
  rw [hsize] at hfits
  have hroom : 0 + bytes.length ≤ p.chunkBuf.size := by omega
  have hwrite : (writeBytes 0 bytes).advance (chunkHost H) ⟨p, mem⟩ =
      (.ended (.ret ()), ⟨p, Memory.write mem (p.chunkBuf.data + 0) bytes⟩) :=
    advance_writeBytes hroom
  have hsub : (chunkHost H).handle ⟨p, Memory.write mem p.chunkBuf.data bytes⟩
      (.subspan bytes.length) = .answered ()
        ⟨{ p with chunkBuf := ⟨p.chunkBuf.data, bytes.length⟩ },
          Memory.write mem p.chunkBuf.data bytes⟩ := if_pos hfits
  simp only [h]
  rw [Prog.advance_bind hwrite, Nat.add_zero, Prog.advance_answered hsub]

end

def Script.frame : Script → Option CoroBody
  | .await refuse write rest => some (Script.resumed refuse write fun buf => (rest buf).body)
  | _ => none

structure At (size : Option Nat) (g : SyncGenerator H) (s : Script) : Prop where
  size : g.size = size
  handle : g.handle = s.frame
  suspended : s.ended = false → H.Suspended g.promise.base

variable {size : Option Nat} {g : SyncGenerator H} {s t : Script}

theorem At.of_ended (hs : g.size = size) (hg : g.handle = none) (he : s.ended = true) :
    At size g s := by
  refine ⟨hs, ?_, fun h => ?_⟩
  · rw [hg]
    cases s with
    | await refuse write rest => cases he
    | _ => rfl
  · rw [he] at h
    cases h

def Script.settled (s : Script) (p : PromiseType H) : PromiseType H :=
  if s.ended then p else p.awaitTransform

theorem at_settled (hp : H.Suspended (H.onSuspend p.base)) :
    At p.size ⟨s.settled p, s.frame⟩ s := by
  cases s with
  | await refuse write rest => exact ⟨rfl, rfl, fun _ => hp⟩
  | _ => exact .of_ended rfl rfl rfl

theorem suspended_settled (hp : H.Suspended p.base) : H.Suspended (s.settled p).base := by
  cases s with
  | await refuse write rest => exact hp.again
  | _ => exact hp

theorem settled_chunkBuf (s : Script) (p : PromiseType H) :
    (s.settled p).chunkBuf = p.chunkBuf := by
  cases s <;> rfl

/-! What the generator makes of it. -/

theorem settle_body (ht : s.threw = false) (p : PromiseType H) (mem : Nat → UInt8) :
    ∃ stop, s.body.advance (chunkHost H) ⟨p, mem⟩ = (stop, ⟨s.settled p, mem⟩) ∧
      SyncGenerator.settle (s.settled p) stop = (.ret (), ⟨s.settled p, s.frame⟩) := by
  cases s with
  | ret => exact ⟨_, rfl, rfl⟩
  | throw e => cases ht
  | await refuse write rest =>
    have hawait : (chunkHost H).handle ⟨p, mem⟩ .chunkBuf =
        .suspended ⟨p.awaitTransform, mem⟩ := rfl
    exact ⟨_, Prog.advance_suspended hawait, rfl⟩

theorem rethrow_quiet (hH : H.Documented) (h : H.Suspended g.promise.base) :
    g.rethrowIfException = (.ret g.promise.chunkBuf, g) := by
  simp only [SyncGenerator.rethrowIfException, hH.quiet _ h]

theorem rethrow_kept {e : Exn} (h : (H.rethrowIfException g.promise.base).1 = some e) :
    ∃ base, g.rethrowIfException =
      (.throw e, { g with promise := { g.promise with base := base } }) := by
  cases hr : H.rethrowIfException g.promise.base with
  | mk r base =>
    rw [hr] at h
    obtain rfl : r = some e := h
    exact ⟨base, by simp only [SyncGenerator.rethrowIfException, hr]⟩

section
variable {frame : CoroBody} {buffer : Span} {mem' : Nat → UInt8} (hH : H.Documented)
  (hg : g.handle = some frame) (hp : H.Suspended p.base)
include hH hg hp

theorem getNextChunk_settled (ht : t.threw = false)
    (ha : frame.advance (chunkHost H) ⟨{ g.promise with chunkBuf := buffer }, mem⟩ =
      t.body.advance (chunkHost H) ⟨p, mem'⟩) :
    g.getNextChunk buffer mem = ((.ret p.chunkBuf, ⟨t.settled p, t.frame⟩), mem') := by
  obtain ⟨stop, hbody, hsettle⟩ := settle_body ht p mem'
  have hsusp : H.Suspended (t.settled p).base := suspended_settled hp
  have hquiet : SyncGenerator.rethrowIfException ⟨t.settled p, t.frame⟩ =
      (.ret (t.settled p).chunkBuf, ⟨t.settled p, t.frame⟩) := rethrow_quiet hH hsusp
  rw [settled_chunkBuf] at hquiet
  rw [hbody] at ha
  simp only [SyncGenerator.getNextChunk, hg, ha, hsettle, hquiet]

theorem getNextChunk_thrown {e : Exn}
    (ha : frame.advance (chunkHost H) ⟨{ g.promise with chunkBuf := buffer }, mem⟩ =
      (Script.throw e).body.advance (chunkHost H) ⟨p, mem'⟩) :
    ∃ g', g.getNextChunk buffer mem = ((.throw e, g'), mem') ∧ At p.size g' (.throw e) := by
  obtain ⟨q, hq, hkept⟩ := hH.kept p.base e hp
  obtain ⟨base, hthrow⟩ := rethrow_kept (g := ⟨{ p with base := q }, none⟩) hkept
  refine ⟨⟨{ p with base := base }, none⟩, ?_, .of_ended rfl rfl rfl⟩
  simp only [SyncGenerator.getNextChunk, hg, ha, Script.body, Prog.advance, SyncGenerator.settle,
    hq, hthrow]

end

theorem advance_coroutine (sz : Option (Option Nat)) (s : Script) (mem : Nat → UInt8) :
    (s.coroutine sz).advance (chunkHost H) ⟨.construct H, mem⟩ =
      s.body.advance (chunkHost H) ⟨{ PromiseType.construct H with size := sz.join }, mem⟩ := by
  cases sz with
  | none => rfl
  | some sz =>
    have hyield : (chunkHost H).handle ⟨.construct H, mem⟩ (.yieldValue sz) =
        .answered () ⟨{ PromiseType.construct H with size := sz }, mem⟩ := rfl
    rw [Script.coroutine, Prog.advance_answered hyield]
    rfl

theorem create_settled (ht : s.threw = false) (sz : Option (Option Nat)) (mem : Nat → UInt8) :
    ∃ g : SyncGenerator H, SyncGenerator.create (s.coroutine sz) mem = (.ret g, mem) ∧
      At sz.join g s := by
  let started : PromiseType H := { PromiseType.construct H with size := sz.join }
  obtain ⟨stop, hbody, hsettle⟩ := settle_body ht started mem
  have ha : (s.coroutine sz).advance (chunkHost H) ⟨.construct H, mem⟩ =
      (stop, ⟨s.settled started, mem⟩) := (advance_coroutine sz s mem).trans hbody
  refine ⟨⟨s.settled started, s.frame⟩, ?_, at_settled (p := started) .first⟩
  simp only [SyncGenerator.create, ha, hsettle]

theorem create_thrown (hH : H.Documented) (sz : Option (Option Nat)) (e : Exn)
    (mem : Nat → UInt8) :
    SyncGenerator.create (H := H) ((Script.throw e).coroutine sz) mem = (.throw e, mem) := by
  -- nothing was suspended yet, so what the script throws first leaves the creating call
  have ha := advance_coroutine (H := H) sz (.throw e) mem
  have heager : H.unhandledException (PromiseType.construct H).base e = .error e := hH.eager e
  simp only [SyncGenerator.create, ha, Script.body, Prog.advance, SyncGenerator.settle, heager]

end Acord.Coro
