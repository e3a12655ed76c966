import Acord.Conversation
import Acord.Lib.Channel

/-! Handing the client over to a provider: the coroutine and then the provider read what the
client writes and write what it reads, over the same two bounded streams. -/

namespace Acord
open Ac Channels RequestLoop Transition

variable {sch : SchemaLib} {e : LocalEvent sch}

/-- A client, the coroutine that serves it, and the provider it may be handed over to: `up` holds
what the client wrote and nobody read yet, `down` what is still to be read by the client. -/
structure Handoff where
  session : Server localEffects Exn LocalEnv
  up : Channel Ac.Frame
  down : Channel Ac.Frame
  attached : Bool

inductive HandoffEvent (sch : SchemaLib)
  | clientPush (f : Ac.Frame)
  | clientPop (f : Ac.Frame)
  | session (e : LocalEvent sch)
  | providerPop (f : Ac.Frame)
  | providerPush (f : Ac.Frame)
  | drop

inductive Streams (sch : SchemaLib) : Handoff → LocalEvent sch → Handoff → Prop
  | polled {s : Handoff} {f : Ac.Frame} {rest : List Ac.Frame} (due : s.up.buf = f :: rest) :
      Streams sch s (.request (.frame f)) { s with up := s.up.pop f rest due }
  | pollClosed {s : Handoff} (empty : s.up.buf = []) (closed : s.up.closed = true) :
      Streams sch s (.request .closed) s
  | pollDetached {s : Handoff} : Streams sch s (.request .detached) s
  | pushed {s : Handoff} {f : Ac.Frame} (live : s.down.closed = false) (room : ¬ s.down.full) :
      Streams sch s (.call (.push f) Pushed.ok) { s with down := s.down.push f }
  | pushClosed {s : Handoff} {f : Ac.Frame} (closed : s.down.closed = true) :
      Streams sch s (.call (.push f) Pushed.closed) s
  | pushDetached {s : Handoff} {f : Ac.Frame} :
      Streams sch s (.call (.push f) Pushed.detached) s
  | attached {s : Handoff} {name : Str} :
      Streams sch s (.call (.attach name) (Except.ok ())) { s with attached := true }
  | refused {s : Handoff} {name : Str} {x : Exn} :
      Streams sch s (.call (.attach name) (Except.error x))
        { s with up := s.up.close, down := s.down.close }
  | connect {s : Handoff} {id : Str} {r : Except Exn Unit} : Streams sch s (.call (.connect id) r) s
  | aioPush {s : Handoff} {f : Ac.Frame} {r : Pushed} : Streams sch s (.call (.aioPush f) r) s
  | aioPoll {s : Handoff} {r : Polled} : Streams sch s (.call .aioPoll r) s
  | detach {s : Handoff} : Streams sch s (.call .detach ()) s

inductive HandoffStep (sch : SchemaLib) : Handoff → HandoffEvent sch → Handoff → Prop
  | clientPush {s : Handoff} {f : Ac.Frame} (live : s.up.closed = false) (room : ¬ s.up.full) :
      HandoffStep sch s (.clientPush f) { s with up := s.up.push f }
  | clientPop {s : Handoff} {f : Ac.Frame} {rest : List Ac.Frame} (due : s.down.buf = f :: rest) :
      HandoffStep sch s (.clientPop f) { s with down := s.down.pop f rest due }
  | session {s t : Handoff} {e : LocalEvent sch} {q : Server localEffects Exn LocalEnv}
      (run : (localSession sch).step s.session e q) (io : Streams sch s e t) :
      HandoffStep sch s (.session e) { t with session := q }
  | providerPop {s : Handoff} {f : Ac.Frame} {rest : List Ac.Frame} (own : s.attached = true)
      (due : s.up.buf = f :: rest) :
      HandoffStep sch s (.providerPop f) { s with up := s.up.pop f rest due }
  | providerPush {s : Handoff} {f : Ac.Frame} (own : s.attached = true)
      (live : s.down.closed = false) (room : ¬ s.down.full) :
      HandoffStep sch s (.providerPush f) { s with down := s.down.push f }
  | drop {s : Handoff} :
      HandoffStep sch s .drop { s with up := s.up.close, down := s.down.close }

def handoff (sch : SchemaLib) (upCap downCap : Nat) : System Handoff (HandoffEvent sch) where
  init s := s = ⟨⟨(acordRun sch).start, ⟨false, false⟩⟩, .create upCap, .create downCap, false⟩
  step := HandoffStep sch

/-! The frames of a run, by who wrote or read them. -/

def sessionEvent : HandoffEvent sch → Option (LocalEvent sch)
  | .session e => some e
  | _ => none

def clientWrote : HandoffEvent sch → Option Ac.Frame
  | .clientPush f => some f
  | _ => none

def clientRead : HandoffEvent sch → Option Ac.Frame
  | .clientPop f => some f
  | _ => none

def providerRead : HandoffEvent sch → Option Ac.Frame
  | .providerPop f => some f
  | _ => none

def providerWrote : HandoffEvent sch → Option Ac.Frame
  | .providerPush f => some f
  | _ => none

variable {tr : List (HandoffEvent sch)} {s t : Handoff} {upCap downCap : Nat}

structure HandoffInv (tr : List (HandoffEvent sch)) (s : Handoff) : Prop where
  session : (localSession sch).Run (tr.filterMap sessionEvent) s.session
  attached : s.attached = true ↔ Attached (tr.filterMap sessionEvent)
  before : s.attached = false → tr.filterMap providerRead = [] ∧ tr.filterMap providerWrote = []
  wrote : s.up.pushed = tr.filterMap clientWrote
  read : s.up.popped = polledFrames (tr.filterMap sessionEvent) ++ tr.filterMap providerRead
  sent : s.down.pushed = accepted (tr.filterMap sessionEvent) ++ tr.filterMap providerWrote
  seen : s.down.popped = tr.filterMap clientRead

theorem HandoffInv.over (h : HandoffInv tr s) (ha : s.attached = true)
    {q : Server localEffects Exn LocalEnv} (hs : (localSession sch).step s.session e q) :
    False := by
  obtain ⟨xs, f, name, _, _, hret⟩ := attached_conversation h.session (h.attached.mp ha)
  obtain ⟨session, up, down, attached⟩ := s
  cases hs with
  | request => cases hret
  | call => cases hret

theorem Streams.frames (h : Streams sch s e t) :
    t.up.pushed = s.up.pushed ∧ t.up.popped = s.up.popped ++ polledFrames [e] ∧
    t.down.pushed = s.down.pushed ++ accepted [e] ∧ t.down.popped = s.down.popped ∧
    (t.attached = true ↔ s.attached = true ∨ Attached [e]) := by
  cases h with
  | aioPoll => simp [polledFrames, polledFrame, accepted, acceptedFrame, Attached]
  | _ => simp [polledFrames, polledFrame, accepted, acceptedFrame, Attached]

theorem HandoffInv.session_step (hi : HandoffInv tr s) {q : Server localEffects Exn LocalEnv}
    (run : (localSession sch).step s.session e q) (io : Streams sch s e t) :
    HandoffInv (tr ++ [.session e]) { t with session := q } := by
  have hfree : s.attached = false := by
    by_contra ha
    exact hi.over (by simpa using ha) run
  obtain ⟨hup, hpop, hdown, hseen, hattached⟩ := io.frames
  obtain ⟨hread, hwrote⟩ := hi.before hfree
  have hpopped : s.up.popped = polledFrames (tr.filterMap sessionEvent) := by
    rw [hi.read, hread, List.append_nil]
  have hpushed : s.down.pushed = accepted (tr.filterMap sessionEvent) := by
    rw [hi.sent, hwrote, List.append_nil]
  have hsession : (tr ++ [HandoffEvent.session e]).filterMap sessionEvent =
      tr.filterMap sessionEvent ++ [e] := filterMap_snoc _ _ _
  have hread' : (tr ++ [HandoffEvent.session e]).filterMap providerRead = [] := by
    rw [filterMap_snoc, hread]
    rfl
  have hwrote' : (tr ++ [HandoffEvent.session e]).filterMap providerWrote = [] := by
    rw [filterMap_snoc, hwrote]
    rfl
  constructor
  · rw [hsession]
    exact hi.session.next run
  · rw [hsession, attached_append, ← hi.attached]
    exact hattached
  · exact fun _ => ⟨hread', hwrote'⟩
  · rw [filterMap_snoc, ← hi.wrote]
    exact hup.trans (List.append_nil _).symm
  · rw [hsession, hread', polledFrames_append, List.append_nil, ← hpopped]
    exact hpop
  · rw [hsession, hwrote', accepted_append, List.append_nil, ← hpushed]
    exact hdown
  · rw [filterMap_snoc, ← hi.seen]
    exact hseen.trans (List.append_nil _).symm

theorem HandoffInv.other {a : HandoffEvent sch} (hi : HandoffInv tr s) (ha : sessionEvent a = none)
    (hs : t.session = s.session) (hat : t.attached = s.attached)
    (hown : s.attached = false → providerRead a = none ∧ providerWrote a = none)
    (hup : t.up.pushed = s.up.pushed ++ (clientWrote a).toList)
    (hpop : t.up.popped = s.up.popped ++ (providerRead a).toList)
    (hdown : t.down.pushed = s.down.pushed ++ (providerWrote a).toList)
    (hseen : t.down.popped = s.down.popped ++ (clientRead a).toList) :
    HandoffInv (tr ++ [a]) t := by
  have hsession : (tr ++ [a]).filterMap sessionEvent = tr.filterMap sessionEvent := by
    rw [filterMap_snoc, ha]
    exact List.append_nil _
  constructor
  · rw [hsession, hs]
    exact hi.session
  · rw [hsession, hat]
    exact hi.attached
  · intro hfree
    rw [hat] at hfree
    obtain ⟨hread, hwrote⟩ := hi.before hfree
    obtain ⟨hr, hw⟩ := hown hfree
    rw [filterMap_snoc, filterMap_snoc, hread, hwrote, hr, hw]
    exact ⟨rfl, rfl⟩
  · rw [filterMap_snoc, hup, hi.wrote]
  · rw [hsession, filterMap_snoc, hpop, hi.read, List.append_assoc]
  · rw [hsession, filterMap_snoc, hdown, hi.sent, List.append_assoc]
  · rw [filterMap_snoc, hseen, hi.seen]

theorem handoff_step {a : HandoffEvent sch} (hi : HandoffInv tr s) (h : HandoffStep sch s a t) :
    HandoffInv (tr ++ [a]) t := by
  have hnil : ∀ l : List Ac.Frame, l = l ++ [] := fun l => (List.append_nil l).symm
  cases h with
  | session run io => exact hi.session_step run io
  | clientPush => exact hi.other rfl rfl rfl (fun _ => ⟨rfl, rfl⟩) rfl (hnil _) (hnil _) (hnil _)
  | clientPop => exact hi.other rfl rfl rfl (fun _ => ⟨rfl, rfl⟩) (hnil _) (hnil _) (hnil _) rfl
  | drop => exact hi.other rfl rfl rfl (fun _ => ⟨rfl, rfl⟩) (hnil _) (hnil _) (hnil _) (hnil _)
  | providerPop own =>
    have hown : s.attached ≠ false := by simp [own]
    exact hi.other rfl rfl rfl (fun h => absurd h hown) (hnil _) rfl (hnil _) (hnil _)
  | providerPush own =>
    have hown : s.attached ≠ false := by simp [own]
    exact hi.other rfl rfl rfl (fun h => absurd h hown) (hnil _) (hnil _) rfl (hnil _)

theorem handoff_inv (h : (handoff sch upCap downCap).Run tr s) : HandoffInv tr s := by
  refine h.trace_invariant (I := HandoffInv) ?_ fun tr s a t => handoff_step
  rintro s rfl
  exact ⟨.start rfl, by simp [Attached], fun _ => ⟨rfl, rfl⟩, rfl, rfl, rfl, rfl⟩

/-- In every run in which a provider has taken the client over: what the coroutine polled is what
the client wrote up to and including one request to load a provider, and the provider has read
what follows, up to what is still in the stream; the client has seen, up to what is still in the
stream, the state of the coroutine, its reply to each request before that one, the reply to that
one and what the provider wrote. -/
theorem handoff_partition (h : (handoff sch upCap downCap).Run tr s) (ha : s.attached = true) :
    ∃ (xs : List (Exchange sch)) (f : Ac.Frame) (name : Str), f.op = Schema.opLoadProvider ∧
      tr.filterMap sessionEvent =
        startEvents sch ++ xs.flatMap Exchange.events ++ loadEvents f name ∧
      polledFrames (tr.filterMap sessionEvent) = xs.map Exchange.request ++ [f] ∧
      tr.filterMap clientWrote =
        (xs.map Exchange.request ++ [f]) ++ tr.filterMap providerRead ++ s.up.buf ∧
      tr.filterMap clientRead ++ s.down.buf =
        sch.stateChange Schema.id :: xs.map Exchange.reply ++ [loadedFrame] ++
          tr.filterMap providerWrote := by
  have hi := handoff_inv h
  obtain ⟨xs, f, name, hop, htr, _⟩ := attached_conversation hi.session (hi.attached.mp ha)
  have hpolled : polledFrames (tr.filterMap sessionEvent) = xs.map Exchange.request ++ [f] := by
    rw [htr, polledFrames_append, polledFrames_append, polledFrames_exchanges]
    rfl
  have haccepted : accepted (tr.filterMap sessionEvent) =
      sch.stateChange Schema.id :: xs.map Exchange.reply ++ [loadedFrame] := by
    rw [htr, accepted_append, accepted_append, accepted_exchanges]
    rfl
  refine ⟨xs, f, name, hop, htr, hpolled, ?_, ?_⟩
  · rw [← hi.wrote, s.up.ledger, hi.read, hpolled]
  · rw [← hi.seen, ← s.down.ledger, hi.sent, haccepted]

theorem run_session_call {op : LocalOp} {k : op.Res → LocalProg Bool} {w : LocalEnv}
    (h : (handoff sch upCap downCap).Run tr s) (hs : s.session = ⟨.call op k, w⟩) (r : op.Res)
    (hr : localEnv.allow w op r) (io : Streams sch s (.call op r) t) :
    (handoff sch upCap downCap).Run (tr ++ [.session (.call op r)])
      { t with session := ⟨k r, localEnv.next w op r⟩ } :=
  h.next (.session (hs ▸ .call hr) io)

theorem run_session_poll {w : LocalEnv} {rest : List Ac.Frame} {f : Ac.Frame}
    (h : (handoff sch upCap downCap).Run tr s) (hs : s.session = ⟨.ret true, w⟩)
    (hw : w.detached = false) (due : s.up.buf = f :: rest) :
    (handoff sch upCap downCap).Run (tr ++ [.session (.request (Polled.frame f))])
      { s with
        up := s.up.pop f rest due
        session := ⟨catchClosed (serve sch (.frame f)), w⟩ } := by
  have hstep : (localSession sch).step ⟨.ret true, w⟩ (.request (Polled.frame f))
      ⟨catchClosed (serve sch (.frame f)), w⟩ :=
    Loop.Step.request (L := acordRun sch) (r := Polled.frame f) hw
  exact h.next (.session (hs ▸ hstep) (.polled due))

theorem handoff_partition_pipelined : ∃ tr s,
    (handoff sampleSchema 10 10).Run tr s ∧ s.attached = true ∧
    tr.filterMap clientWrote = [hiFrame, nopeFrame, hiFrame] ∧
    tr.filterMap providerRead = [hiFrame] ∧
    ∃ (xs : List (Exchange sampleSchema)) (f : Ac.Frame),
      [hiFrame, nopeFrame] = xs.map Exchange.request ++ [f] := by
  have h0 := System.Run.start (M := handoff sampleSchema 10 10) rfl
  have h1 := h0.next (a := HandoffEvent.clientPush hiFrame) (.clientPush rfl (by decide))
  have h2 := h1.next (a := HandoffEvent.clientPush nopeFrame) (.clientPush rfl (by decide))
  have h3 := h2.next (a := HandoffEvent.clientPush hiFrame) (.clientPush rfl (by decide))
  have h4 := run_session_call h3 rfl Pushed.ok ⟨rfl, rfl⟩ (.pushed rfl (by decide))
  have h5 := run_session_poll h4 rfl rfl rfl
  have h6 := run_session_call h5 rfl Pushed.ok ⟨rfl, rfl⟩ (.pushed rfl (by decide))
  have h7 := run_session_poll h6 rfl rfl rfl
  have h8 := run_session_call h7 rfl Pushed.ok ⟨rfl, rfl⟩ (.pushed rfl (by decide))
  have h9 := run_session_call h8 rfl () trivial .detach
  have h10 := run_session_call h9 rfl (Except.ok ()) trivial .attached
  have h11 := h10.next (a := HandoffEvent.providerPop hiFrame) (.providerPop rfl rfl)
  obtain ⟨xs, f, _, _, _, hp, _⟩ := handoff_partition h11 rfl
  exact ⟨_, _, h11, rfl, rfl, rfl, xs, f, hp⟩

end Acord
