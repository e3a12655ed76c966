import Acord.PumpFlow
import Acord.LocalSession

/-! Encoding the frames read from the dispatch: unlike decoding, it is not guarded, so a frame the
session's converter refuses throws out of the handler and leaves the session stuck. -/

namespace Acord
open Ac Channels Transition CommonWsSession

variable {lib : DictLib} {s : CommonWsSession}

/-- No exception left a handler, every frame that could not be encoded led to `wsClose`, and a
buffer is held only while it is being sent. -/
structure EncodesSafely (s : CommonWsSession) : Prop where
  contained : s.escaped = []
  closed : ∀ f ∈ s.readStream.popped, s.cvt.encode f = none → 0 < s.wsCloses
  sending : s.sending ≠ none → 0 < s.wsSends

/-- In every state a session reaches, encoding has been safe exactly when its converter could
encode every frame the dispatch has yielded. -/
theorem encodes_safely_iff {tr : List WsEvent} (h : (pump lib).Run tr s) :
    EncodesSafely s ↔ ∀ f ∈ s.readStream.popped, ∃ m, s.cvt.encode f = some m := by
  obtain ⟨_, hflow⟩ := pump_flow h
  obtain ⟨_, hout⟩ := pump_inv h
  constructor
  · intro hs f hf
    cases he : s.cvt.encode f with
    | some m => exact ⟨m, rfl⟩
    | none => exact absurd hs.contained (hflow.2.mpr ⟨f, hf, he⟩)
  · intro henc
    have hsome : ¬ ∃ f ∈ s.readStream.popped, s.cvt.encode f = none := by
      rintro ⟨f, hf, he⟩
      obtain ⟨m, hm⟩ := henc f hf
      simp [he] at hm
    have hcontained : s.escaped = [] := not_not.mp fun hne => hsome (hflow.2.mp hne)
    refine ⟨hcontained, fun f hf he => absurd ⟨f, hf, he⟩ hsome, ?_⟩
    intro hne
    rcases hout with ⟨_, h2⟩ | ⟨_, ⟨hn, _⟩ | ⟨_, _, hf⟩⟩
    · exact Nat.pos_of_ne_zero fun hz => hne (h2.mpr hz)
    · exact absurd hn hne
    · exact absurd hf hsome

theorem encodes_safely_hi :
    ∃ tr s, (pump sampleLib).Run tr s ∧ s.sending ≠ none ∧ EncodesSafely s := by
  have h0 : (pump sampleLib).init _ := .server (lit "/") (unused_create 10 10)
  have h1 := (System.Run.start h0).next (a := WsEvent.push hiFrame) (.push rfl (by decide))
  have h2 := h1.next (a := WsEvent.fireRead) (.fireRead ⟨by decide, .inr (by simp)⟩)
  have h3 := h2.next (a := WsEvent.readTask) (.readTask (by decide))
  refine ⟨_, _, h3, ?_, (encodes_safely_iff h3).mpr fun f hf => ⟨.text hiJson, ?_⟩⟩
  · exact nofun
  · obtain rfl := List.mem_singleton.mp hf
    rfl

/-- A client of a JSON session sends a binary message whose operation is no valid UTF-8; the
local session's reply echoes it, and encoding the reply throws. -/
theorem encodes_unsafely :
    ∃ tr s, (pump sampleLib).Run tr s ∧
      tr = [.wsReceived (.binary badOpCbor), .pop ⟨[0xFF], .null⟩, .push (unknownOp [0xFF]),
        .fireRead, .readTask] ∧
      s.escaped = [.error (lit "type_error.316")] ∧ s.sending ≠ none ∧ s.wsSends = 0 ∧
      s.wsCloses = 0 ∧ ¬ EncodesSafely s := by
  have h0 : (pump sampleLib).init _ := .server (lit "/") (unused_create 10 10)
  have h1 := (System.Run.start h0).next (a := WsEvent.wsReceived (.binary badOpCbor))
    (.wsReceived (by decide))
  have h2 := h1.next (a := WsEvent.pop ⟨[0xFF], .null⟩) (.pop (Eq.refl [_]))
  have h3 := h2.next (a := WsEvent.push (unknownOp [0xFF])) (.push rfl (by decide))
  have h4 := h3.next (a := WsEvent.fireRead) (.fireRead ⟨by decide, .inr (by simp)⟩)
  have h5 := h4.next (a := WsEvent.readTask) (.readTask (by decide))
  refine ⟨_, _, h5, rfl, rfl, ?_, rfl, rfl, ?_⟩
  · exact nofun
  · intro h
    exact absurd h.contained (List.cons_ne_nil _ _)

structure SentInOrder (s : CommonWsSession) : Prop where
  -- the messages sent are the frames read, encoded, up to the first that could not be: it is lost,
  -- and nothing runs the outbound loop again
  sent : s.wsSent.map some <+: s.readStream.popped.map s.cvt.encode
  count : s.readStream.popped.length = s.wsSent.length + s.escaped.length
  once : s.escaped.length ≤ 1
  stuck : s.escaped ≠ [] → s.wsSends = 0 ∧ s.readStream.readWaits = 0 ∧ s.readTasks = 0

theorem SentInOrder.of_all (hall : s.wsSent.map some = s.readStream.popped.map s.cvt.encode)
    (he : s.escaped = []) : SentInOrder s where
  sent := hall ▸ List.prefix_rfl
  count := by simpa [he] using (congrArg List.length hall).symm
  once := by simp [he]
  stuck hne := absurd he hne

theorem OutFlow.all_sent (h : OutFlow s) (he : s.escaped = []) :
    s.wsSent.map some = s.readStream.popped.map s.cvt.encode := by
  rw [h.1]
  refine map_some_filterMap fun f hf => Option.ne_none_iff_exists'.mp fun hnone => ?_
  exact h.2.mpr ⟨f, hf, hnone⟩ he

theorem tryRead_sentInOrder (hflow : OutFlow s) (he : s.escaped = [])
    (hz : s.wsSends = 0 ∧ s.readStream.readWaits = 0 ∧ s.readTasks = 0) :
    SentInOrder s.tryReadFromDispatch := by
  have hall := hflow.all_sent he
  rcases s.tryRead_cases with ⟨_, h⟩ | ⟨_, f, rest, hb, h⟩ | ⟨_, _, _, h⟩ | ⟨_, _, _, h⟩ <;> rw [h]
  · exact .of_all hall he
  · have hlen := congrArg List.length hall
    rw [List.length_map, List.length_map] at hlen
    unfold sendFrame
    split
    next buf hok =>
      refine .of_all ?_ he
      simp [wsSend, hall, FrameCvt.encode, hok]
    next x _ =>
      -- the frame was taken from the stream, and nothing is sent for it
      refine ⟨?_, ?_, ?_, fun _ => hz⟩
      · simp only [escape, Channel.pop_popped, List.map_append, ← hall]
        exact List.prefix_append _ _
      · simp [escape, he, hlen]
      · simp [escape, he]
  · exact .of_all hall he
  · exact .of_all hall he

theorem SameOutbound.sentInOrder {t : CommonWsSession} (h : SameOutbound s t)
    (hi : SentInOrder s) : SentInOrder t := by
  obtain ⟨hv, hr, _, hs, hn, hsent, he, _, _, _⟩ := h
  obtain ⟨h1, h2, h3, h4⟩ := hi
  exact ⟨by simpa only [hv, hr, hsent] using h1, by simpa only [hr, hsent, he] using h2, he ▸ h3,
    by simpa only [hr, hs, hn, he] using h4⟩

theorem step_sentInOrder {t : CommonWsSession} {a : WsEvent} (h : WsStep lib s a t)
    (hout : s.OutInv) (hflow : OutFlow s) (hi : SentInOrder s) : SentInOrder t := by
  cases h with
  | wsReceived =>
    exact (received_sameOutbound _ _ _).sentInOrder ⟨hi.sent, hi.count, hi.once, hi.stuck⟩
  | writeTask => exact (tryWrite_sameOutbound _).sentInOrder ⟨hi.sent, hi.count, hi.once, hi.stuck⟩
  | wsCompletedSend due =>
    have he : s.escaped = [] := by
      by_contra hne
      have hnone := (hi.stuck hne).1
      omega
    rcases hout with ⟨h1, _⟩ | ⟨⟨h1, _⟩, _⟩
    · exact tryRead_sentInOrder (s := { s with wsSends := s.wsSends - 1, sending := none }) hflow he
        (spend_first h1 due)
    · omega
  | readTask due =>
    have he : s.escaped = [] := by
      by_contra hne
      have hnone := (hi.stuck hne).2.2
      omega
    rcases hout with ⟨h1, _⟩ | ⟨⟨_, _, h1⟩, _⟩
    · exact tryRead_sentInOrder (s := { s with readTasks := s.readTasks - 1 }) hflow he
        (spend_last h1 due)
    · omega
  | fireRead due =>
    refine ⟨hi.sent, hi.count, hi.once, fun hne => ?_⟩
    have hnone := (hi.stuck hne).2.1
    have hone := due.1
    omega
  | fireWrite | push | pop | drop | wsClosed => exact ⟨hi.sent, hi.count, hi.once, hi.stuck⟩

theorem pump_sentInOrder {tr : List WsEvent} (h : (pump lib).Run tr s) : SentInOrder s := by
  induction h with
  | start h =>
    obtain ⟨target, rs, ws, fresh, rfl⟩ := h.eq
    refine tryRead_sentInOrder ⟨?_, ?_⟩ rfl ⟨rfl, fresh.readWaits, rfl⟩
    · simp [wsOpened, wsReceive, unopened, construct, fresh.popped]
    · simp [wsOpened, wsReceive, unopened, construct, fresh.popped]
  | next hr hs ih => exact step_sentInOrder hs (pump_inv hr).2 (pump_flow hr).2 ih

end Acord
