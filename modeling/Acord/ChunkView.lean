import Acord.ChunkProtocol
import Acord.SyncGenerator

/-! What a caller finds in its buffers is what a generator over lists of bytes hands out. -/

namespace Acord.Coro
open Ac RequestLoop

def Script.landing : Script → Resumed Script
  | ret => .returned
  | throw e => .threw e
  | s => .awaiting s

def Script.producer : Producer Script := fun s buf =>
  match s with
  | await refuse write _ =>
    match refuse buf with
    | some _ => (buf, (s.next buf).landing)
    | none => (write buf, (s.next buf).landing)
  | _ => (buf, s.landing)

def SyncGenerator.reply {H : EagerCoroHelper} (g : SyncGenerator H) (c : Call) :
    Option (Except Exn (List UInt8)) :=
  match (g.call c).1.1 with
  | .ret chunk => some (.ok (chunk.bytes (g.call c).2))
  | .throw e => some (.error e)
  | .crash => none

structure ListAt (size : Option Nat) (l : Acord.SyncGenerator Script) (s : Script) : Prop where
  size : l.size = size
  handle : l.handle = if s.ended then none else some s
  exception : s.threw = false → l.exception = none

variable {H : EagerCoroHelper} {size : Option Nat} {g : SyncGenerator H}
  {l : Acord.SyncGenerator Script} {s : Script}

theorem land_listAt (h : l.size = size) (he : l.exception = none) (s : Script) :
    ListAt size (l.land s.landing) s := by
  cases s with
  | ret => exact ⟨h, rfl, fun _ => he⟩
  | throw e => exact ⟨h, rfl, nofun⟩
  | await refuse write rest => exact ⟨h, rfl, fun _ => he⟩

theorem land_rethrow (he : l.exception = none) (s : Script) :
    (∀ e, s = .throw e → (l.land s.landing).rethrowIfException = .error e) ∧
    (s.threw = false → (l.land s.landing).rethrowIfException = .ok l.chunkBuf) := by
  cases s with
  | throw e =>
    refine ⟨fun e' h => ?_, nofun⟩
    obtain rfl := Script.throw.inj h
    rfl
  | _ =>
    refine ⟨nofun, fun _ => ?_⟩
    simp only [Script.landing, Acord.SyncGenerator.land, Acord.SyncGenerator.rethrowIfException, he]

theorem producer_next (he : s.ended = false) (buf : List UInt8) :
    ∃ chunk, Script.producer s buf = (chunk, (s.next buf).landing) ∧
      ((s.next buf).threw = false → chunk = s.written buf) := by
  cases s with
  | await refuse write rest =>
    cases hr : refuse buf with
    | some e =>
      have hnext : (Script.await refuse write rest).next buf = .throw e := by
        simp only [Script.next, hr]
      exact ⟨buf, by simp only [Script.producer, hr], fun ht => by rw [hnext] at ht; cases ht⟩
    | none => exact ⟨write buf, by simp only [Script.producer, hr], fun _ => rfl⟩
  | _ => cases he

theorem ListAt.ended (h : ListAt size l s) (he : s.ended = true) (buf : List UInt8) :
    l.getNextChunk Script.producer buf = (.ok [], l) := by
  have hl : l.handle = none := by
    rw [h.handle, if_pos he]
  simp only [Acord.SyncGenerator.getNextChunk, hl]

theorem ListAt.resumed (h : ListAt size l s) (he : s.ended = false) (buf : List UInt8) :
    ListAt size (l.getNextChunk Script.producer buf).2 (s.next buf) ∧
    (∀ e, s.next buf = .throw e → (l.getNextChunk Script.producer buf).1 = .error e) ∧
    ((s.next buf).threw = false →
      (l.getNextChunk Script.producer buf).1 = .ok (s.written buf)) := by
  have hl : l.handle = some s := by
    rw [h.handle, he]
    rfl
  have hexc : l.exception = none := h.exception (Script.not_threw he)
  obtain ⟨chunk, hproducer, hchunk⟩ := producer_next he buf
  let l' : Acord.SyncGenerator Script := { l with chunkBuf := chunk, handle := some s }
  have hland := land_listAt (l := l') h.size hexc (s.next buf)
  obtain ⟨hthrow, hok⟩ := land_rethrow (l := l') hexc (s.next buf)
  simp only [Acord.SyncGenerator.getNextChunk, hl, hproducer]
  refine ⟨hland, hthrow, fun ht => ?_⟩
  rw [← hchunk ht]
  exact hok ht

theorem reply_eq (hH : H.Documented) (h : At size g s) (hl : ListAt size l s) (c : Call) :
    g.reply c = some (l.getNextChunk Script.producer c.contents).1 ∧
    At size (g.call c).1.2 (s.next c.contents) ∧
    ListAt size (l.getNextChunk Script.producer c.contents).2 (s.next c.contents) := by
  have hat := h.call hH c
  rcases call_cases hH h c with ⟨he, hcall⟩ | ⟨he, e, g', mem, ht, hcall, _⟩ |
    ⟨he, ht, g', hcall, _⟩
  · refine ⟨?_, hat, ?_⟩
    · rw [hl.ended he, SyncGenerator.reply, hcall]
      rfl
    · rw [hl.ended he, Script.next_ended he]
      exact hl
  · obtain ⟨hlist, hthrow, _⟩ := hl.resumed he c.contents
    refine ⟨?_, hat, hlist⟩
    rw [hthrow e ht, SyncGenerator.reply, hcall]
  · obtain ⟨hlist, _, hok⟩ := hl.resumed he c.contents
    refine ⟨?_, hat, hlist⟩
    rw [hok ht, SyncGenerator.reply, hcall]
    exact congrArg (fun bytes => some (Except.ok bytes)) (Memory.read_write _ _ _)

def SyncGenerator.replies : SyncGenerator H → List Call → List (Option (Except Exn (List UInt8)))
  | _, [] => []
  | g, c :: cs => g.reply c :: replies (g.call c).1.2 cs

def listReplies : Acord.SyncGenerator Script → List (List UInt8) → List (Except Exn (List UInt8))
  | _, [] => []
  | l, buf :: bufs => (l.getNextChunk Script.producer buf).1 ::
      listReplies (l.getNextChunk Script.producer buf).2 bufs

theorem replies_eq (hH : H.Documented) (h : At size g s) (hl : ListAt size l s) (cs : List Call) :
    g.replies cs = (listReplies l (cs.map Call.contents)).map some := by
  induction cs generalizing g l s with
  | nil => rfl
  | cons c cs ih =>
    obtain ⟨hreply, hat, hlist⟩ := reply_eq hH h hl c
    rw [SyncGenerator.replies, hreply, ih hat hlist]
    rfl

theorem create_replies_eq (hH : H.Documented) (sz : Option (Option Nat)) (hs : s.threw = false)
    (mem : Nat → UInt8) :
    ∃ (g : SyncGenerator H) (l : Acord.SyncGenerator Script),
      SyncGenerator.create (s.coroutine sz) mem = (.ret g, mem) ∧
      Acord.SyncGenerator.create sz.join s.landing = .ok l ∧ g.size = l.size ∧
      ∀ cs, g.replies cs = (listReplies l (cs.map Call.contents)).map some := by
  obtain ⟨g, hcreate, hat⟩ := create_settled (H := H) hs sz mem
  have hlist := land_listAt (l := ⟨sz.join, [], none, none⟩) rfl rfl s
  refine ⟨g, _, hcreate, ?_, hat.size.trans hlist.size.symm, replies_eq hH hat hlist⟩
  cases s with
  | throw e => cases hs
  | _ => rfl

end Acord.Coro
