import Acord.ChunkScript

/-! The calls of a generator from its creation on, past the end of its script too. -/

namespace Acord.Coro
open Ac RequestLoop

structure Call where
  buffer : Span
  mem : Nat → UInt8

def Call.contents (c : Call) : List UInt8 := c.buffer.bytes c.mem

def throws : Outcome Exn Span → Bool
  | .throw _ => true
  | _ => false

variable {H : EagerCoroHelper}

namespace SyncGenerator

def call (g : SyncGenerator H) (c : Call) : (Outcome Exn Span × SyncGenerator H) × (Nat → UInt8) :=
  g.getNextChunk c.buffer c.mem

def after (g : SyncGenerator H) (cs : List Call) : SyncGenerator H :=
  cs.foldl (fun g c => (g.call c).1.2) g

def results : SyncGenerator H → List Call → List (Outcome Exn Span)
  | _, [] => []
  | g, c :: cs => (g.call c).1.1 :: results (g.call c).1.2 cs

end SyncGenerator

variable {size : Option Nat} {g : SyncGenerator H} {s : Script} {c : Call} {cs : List Call}

theorem length_contents (c : Call) : c.contents.length = c.buffer.size := Memory.length_read _ _ _

theorem length_written (s : Script) (c : Call) :
    (s.written c.contents).length ≤ c.buffer.size := by
  rw [← length_contents c]
  cases s with
  | await refuse write rest => exact (write c.contents).2
  | _ => exact Nat.zero_le _

theorem call_advance (h : At size g s) (he : s.ended = false) (c : Call) :
    ∃ frame p mem, g.handle = some frame ∧
      frame.advance (chunkHost H) ⟨{ g.promise with chunkBuf := c.buffer }, c.mem⟩ =
        (s.next c.contents).body.advance (chunkHost H) ⟨p, mem⟩ ∧
      H.Suspended p.base ∧ p.size = size ∧
      ((s.next c.contents).threw = false →
        p.chunkBuf = ⟨c.buffer.data, (s.written c.contents).length⟩ ∧
        mem = Memory.write c.mem c.buffer.data (s.written c.contents)) := by
  cases s with
  | await refuse write rest =>
    let p : PromiseType H := { g.promise with chunkBuf := c.buffer }
    cases hr : refuse c.contents with
    | some e =>
      have hnext : (Script.await refuse write rest).next c.contents = .throw e := by
        simp only [Script.next, hr]
      rw [hnext]
      refine ⟨_, p, c.mem, h.handle, ?_, h.suspended rfl, h.size, nofun⟩
      have hrefused : refuse (p.chunkBuf.bytes c.mem) = some e := hr
      exact advance_refused hrefused
    | none =>
      have hnext : (Script.await refuse write rest).next c.contents = rest c.contents := by
        simp only [Script.next, hr]
      rw [hnext]
      have hgoes : refuse (p.chunkBuf.bytes c.mem) = none := hr
      exact ⟨_, _, _, h.handle, advance_resumed hgoes, h.suspended rfl, h.size,
        fun _ => ⟨rfl, rfl⟩⟩
  | _ => cases he

theorem call_chunk (hH : H.Documented) (h : At size g s) (he : s.ended = false)
    (ht : (s.next c.contents).threw = false) :
    ∃ g', g.call c = ((.ret ⟨c.buffer.data, (s.written c.contents).length⟩, g'),
      Memory.write c.mem c.buffer.data (s.written c.contents)) ∧
      At size g' (s.next c.contents) := by
  obtain ⟨frame, p, mem, hg, ha, hp, rfl, hchunk⟩ := call_advance h he c
  obtain ⟨hspan, rfl⟩ := hchunk ht
  rw [← hspan]
  exact ⟨_, getNextChunk_settled hH hg hp ht ha, at_settled hp.again⟩

theorem call_thrown (hH : H.Documented) (h : At size g s) (he : s.ended = false) {e : Exn}
    (ht : s.next c.contents = .throw e) :
    ∃ g' mem, g.call c = ((.throw e, g'), mem) ∧ At size g' (s.next c.contents) := by
  obtain ⟨frame, p, mem, hg, ha, hp, rfl, _⟩ := call_advance h he c
  rw [ht] at ha ⊢
  obtain ⟨g', hcall, hat⟩ := getNextChunk_thrown hH hg hp ha
  exact ⟨g', mem, hcall, hat⟩

theorem call_ended (h : At size g s) (he : s.ended = true) (c : Call) :
    g.call c = ((.ret ⟨0, 0⟩, g), c.mem) := by
  have hg : g.handle = none := by
    rw [h.handle]
    cases s with
    | await refuse write rest => cases he
    | _ => rfl
  simp only [SyncGenerator.call, SyncGenerator.getNextChunk, hg]

theorem threw_cases (s : Script) : (∃ e, s = .throw e) ∨ s.threw = false := by
  cases s with
  | throw e => exact .inl ⟨e, rfl⟩
  | _ => exact .inr rfl

theorem call_cases (hH : H.Documented) (h : At size g s) (c : Call) :
    (s.ended = true ∧ g.call c = ((.ret ⟨0, 0⟩, g), c.mem)) ∨
    (s.ended = false ∧ ∃ e g' mem, s.next c.contents = .throw e ∧
      g.call c = ((.throw e, g'), mem) ∧ At size g' (s.next c.contents)) ∨
    (s.ended = false ∧ (s.next c.contents).threw = false ∧ ∃ g',
      g.call c = ((.ret ⟨c.buffer.data, (s.written c.contents).length⟩, g'),
        Memory.write c.mem c.buffer.data (s.written c.contents)) ∧
      At size g' (s.next c.contents)) := by
  cases he : s.ended with
  | true => exact .inl ⟨rfl, call_ended h he c⟩
  | false =>
    rcases threw_cases (s.next c.contents) with ⟨e, ht⟩ | ht
    · obtain ⟨g', mem, hcall, hat⟩ := call_thrown hH h he ht
      exact .inr (.inl ⟨rfl, e, g', mem, ht, hcall, hat⟩)
    · obtain ⟨g', hcall, hat⟩ := call_chunk hH h he ht
      exact .inr (.inr ⟨rfl, ht, g', hcall, hat⟩)

theorem At.call (hH : H.Documented) (h : At size g s) (c : Call) :
    At size (g.call c).1.2 (s.next c.contents) := by
  rcases call_cases hH h c with ⟨he, hcall⟩ | ⟨_, e, g', mem, _, hcall, hat⟩ |
    ⟨_, _, g', hcall, hat⟩
  · rw [hcall, Script.next_ended he]
    exact h
  · rw [hcall]
    exact hat
  · rw [hcall]
    exact hat

theorem At.after (hH : H.Documented) (h : At size g s) (cs : List Call) :
    At size (g.after cs) (s.after (cs.map Call.contents)) := by
  induction cs generalizing g s with
  | nil => exact h
  | cons c cs ih => exact ih (h.call hH c)

theorem At.done (h : At size g s) : g.done = s.ended := by
  unfold SyncGenerator.done
  rw [h.handle]
  cases s <;> rfl

/-! An exception surfaces once. -/

theorem after_ended (he : s.ended = true) (bufs : List (List UInt8)) : s.after bufs = s := by
  induction bufs with
  | nil => rfl
  | cons buf bufs ih =>
    show (s.next buf).after bufs = s
    rw [Script.next_ended he]
    exact ih

theorem quiet_ended (h : At size g s) (he : s.ended = true) (cs : List Call) :
    (g.results cs).countP throws = 0 := by
  induction cs with
  | nil => rfl
  | cons c cs ih =>
    rw [SyncGenerator.results, call_ended h he]
    exact (List.countP_cons_of_neg Bool.false_ne_true).trans ih

theorem throws_call (hH : H.Documented) (h : At size g s) (c : Call) :
    throws (g.call c).1.1 = (!s.ended && (s.next c.contents).threw) := by
  rcases call_cases hH h c with ⟨he, hcall⟩ | ⟨he, e, g', mem, ht, hcall, _⟩ |
    ⟨he, ht, g', hcall, _⟩
  · rw [hcall, he]
    rfl
  · rw [hcall, he, ht]
    rfl
  · rw [hcall, he, ht]
    rfl

theorem thrown_once (hH : H.Documented) (h : At size g s) (ht : s.threw = false) (cs : List Call) :
    (g.results cs).countP throws = if (s.after (cs.map Call.contents)).threw then 1 else 0 := by
  induction cs generalizing g s with
  | nil => simp [SyncGenerator.results, Script.after, ht]
  | cons c cs ih =>
    have hnext := h.call hH c
    have hthrows := throws_call hH h c
    rw [SyncGenerator.results]
    show _ = if ((s.next c.contents).after (cs.map Call.contents)).threw then 1 else 0
    cases hn : (s.next c.contents).threw with
    | true =>
      -- this is the call that resumes into the throw, and there is nothing after it
      have he : s.ended = false := by
        by_contra he
        rw [Bool.not_eq_false] at he
        rw [Script.next_ended he, ht] at hn
        cases hn
      have hended := Script.ended_of_threw hn
      rw [he, hn] at hthrows
      rw [after_ended hended, hn, if_pos rfl, List.countP_cons_of_pos hthrows,
        quiet_ended hnext hended]
    | false =>
      rw [hn, Bool.and_false] at hthrows
      rw [List.countP_cons_of_neg (by rw [hthrows]; exact Bool.false_ne_true)]
      exact ih hnext hn

structure Follows (size : Option Nat) (s : Script) (g : SyncGenerator H) (cs : List Call) :
    Prop where
  size : (g.after cs).size = size
  done : (g.after cs).done = (s.after (cs.map Call.contents)).ended
  chunk : ∀ c, (s.after (cs.map Call.contents)).ended = false →
    (s.after ((cs ++ [c]).map Call.contents)).threw = false →
    ∃ bytes, bytes = (s.after (cs.map Call.contents)).written c.contents ∧
      bytes.length ≤ c.buffer.size ∧
      ((g.after cs).call c).1.1 = .ret ⟨c.buffer.data, bytes.length⟩ ∧
      Span.bytes ⟨c.buffer.data, bytes.length⟩ ((g.after cs).call c).2 = bytes ∧
      ∀ x, x < c.buffer.data ∨ c.buffer.data + bytes.length ≤ x →
        ((g.after cs).call c).2 x = c.mem x
  thrown : ∀ c e, (s.after (cs.map Call.contents)).ended = false →
    s.after ((cs ++ [c]).map Call.contents) = .throw e → ((g.after cs).call c).1.1 = .throw e
  past : (s.after (cs.map Call.contents)).ended = true → ∀ c,
    (g.after cs).call c = ((.ret ⟨0, 0⟩, g.after cs), c.mem)
  once : (g.results cs).countP throws =
    if (s.after (cs.map Call.contents)).threw then 1 else 0

theorem after_snoc (s : Script) (cs : List Call) (c : Call) :
    s.after ((cs ++ [c]).map Call.contents) =
      (s.after (cs.map Call.contents)).next c.contents := by
  unfold Script.after
  rw [List.map_append, List.foldl_append]
  rfl

theorem follows (hH : H.Documented) (h : At size g s) (ht : s.threw = false) (cs : List Call) :
    Follows size s g cs := by
  have hafter := h.after hH cs
  refine ⟨hafter.size, hafter.done, fun c he hn => ?_, fun c e he hn => ?_,
    fun he c => call_ended hafter he c, thrown_once hH h ht cs⟩
  · rw [after_snoc] at hn
    obtain ⟨g', hcall, _⟩ := call_chunk hH hafter he hn
    refine ⟨_, rfl, length_written _ c, ?_, ?_, ?_⟩
    · rw [hcall]
    · rw [hcall]
      exact Memory.read_write _ _ _
    · intro x hx
      rw [hcall]
      exact Memory.write_outside _ hx
  · rw [after_snoc] at hn
    obtain ⟨g', mem, hcall, _⟩ := call_thrown hH hafter he hn
    rw [hcall]

/-- A generator follows the script of its producer: what the script throws before its first await
leaves the creating call, and from there on every call returns what the script writes in its step,
throws what it throws in it, and does nothing once the script has ended. -/
theorem sync_generator_protocol (hH : H.Documented) (sz : Option (Option Nat)) (s : Script)
    (mem : Nat → UInt8) :
    (∀ e, s = .throw e →
      SyncGenerator.create (H := H) (s.coroutine sz) mem = (.throw e, mem)) ∧
    (s.threw = false → ∃ g : SyncGenerator H,
      SyncGenerator.create (s.coroutine sz) mem = (.ret g, mem) ∧
        ∀ cs, Follows sz.join s g cs) := by
  refine ⟨fun e he => ?_, fun ht => ?_⟩
  · rw [he]
    exact create_thrown hH sz e mem
  · obtain ⟨g, hcreate, hat⟩ := create_settled (H := H) ht sz mem
    exact ⟨g, hcreate, follows hH hat ht⟩

def eagerCoroHelper : EagerCoroHelper where
  State := Bool × Option Exn
  init := (false, none)
  onSuspend p := (true, p.2)
  unhandledException p e := if p.1 then .ok (true, some e) else .error e
  rethrowIfException p := (p.2, p)

theorem eagerCoroHelper_suspended {p : eagerCoroHelper.State} (h : eagerCoroHelper.Suspended p) :
    p = (true, none) := by
  induction h with
  | first => rfl
  | again _ ih => rw [ih]; rfl

theorem eagerCoroHelper_documented : eagerCoroHelper.Documented where
  eager _ := rfl
  kept p e h := by
    rw [eagerCoroHelper_suspended h]
    exact ⟨(true, some e), rfl, rfl⟩
  quiet p h := by
    rw [eagerCoroHelper_suspended h]
    rfl

def throwOnSecondChunk : Script :=
  .await (fun _ => none) (fun buf => ⟨[1, 2, 3].take buf.length, List.length_take_le _ _⟩) fun _ =>
    .await (fun _ => some (.error (lit "second chunk"))) (fun _ => ⟨[], Nat.zero_le _⟩) fun _ =>
      .ret

theorem sync_generator_protocol_throws :
    let c : Call := ⟨⟨16, 2⟩, fun _ => 0⟩
    ∃ g : SyncGenerator eagerCoroHelper,
      SyncGenerator.create (throwOnSecondChunk.coroutine (some (some 3))) (fun _ => 0) =
        (.ret g, fun _ => 0) ∧
      g.size = some 3 ∧ (g.call c).1.1 = .ret ⟨16, 2⟩ ∧
      ((g.after [c]).call c).1.1 = .throw (.error (lit "second chunk")) ∧
      ((g.after [c, c]).call c).1.1 = .ret ⟨0, 0⟩ := by
  intro c
  obtain ⟨g, hcreate, hfollows⟩ := (sync_generator_protocol eagerCoroHelper_documented
    (some (some 3)) throwOnSecondChunk fun _ => 0).2 rfl
  obtain ⟨bytes, rfl, _, hchunk, _⟩ := (hfollows []).chunk c rfl rfl
  refine ⟨g, hcreate, (hfollows []).size, hchunk, (hfollows [c]).thrown c _ rfl rfl, ?_⟩
  rw [(hfollows [c, c]).past rfl c]

end Acord.Coro
