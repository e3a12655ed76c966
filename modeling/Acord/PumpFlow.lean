import Mathlib.Data.List.Forall2
import Acord.PumpTokens

/-! What the pump carries: the messages sent are the frames read, encoded one by one, and the
frames written are the messages got, decoded one by one up to the first that does not decode. -/

namespace Acord
open Ac Channels Transition CommonWsSession

variable {lib : DictLib} {s t : CommonWsSession} {a : WsEvent}

def Decodes (lib : DictLib) (ms : List Message) (fs : List Ac.Frame) : Prop :=
  List.Forall₂ (fun m f => decode lib m = .ok f) ms fs

theorem Decodes.snoc {ms : List Message} {fs : List Ac.Frame} {m : Message} {f : Ac.Frame}
    (h : Decodes lib ms fs) (hm : decode lib m = .ok f) : Decodes lib (ms ++ [m]) (fs ++ [f]) :=
  List.rel_append h (.cons hm .nil)

theorem map_some_filterMap {α β : Type} {enc : α → Option β} {fs : List α}
    (h : ∀ f ∈ fs, ∃ m, enc f = some m) : (fs.filterMap enc).map some = fs.map enc := by
  induction fs with
  | nil => rfl
  | cons f fs ih =>
    obtain ⟨m, hm⟩ := h f List.mem_cons_self
    rw [List.filterMap_cons, hm, List.map_cons, List.map_cons, hm,
      ih fun g hg => h g (List.mem_cons_of_mem _ hg)]

/-- The frames a session writes or still holds are its messages, decoded; or its last message
did not decode, what it wrote are the messages before, and nothing will run the inbound loop
again. -/
def InFlow (lib : DictLib) (s : CommonWsSession) : Prop :=
  Decodes lib s.wsGot (s.writeStream.pushed ++ s.receiving.toList) ∨
  ∃ ms m e, s.wsGot = ms ++ [m] ∧ decode lib m = .error e ∧ Decodes lib ms s.writeStream.pushed ∧
    s.wsReceives = 0 ∧ s.writeStream.writeWaits = 0 ∧ s.writeTasks = 0

def OutFlow (s : CommonWsSession) : Prop :=
  s.wsSent = s.readStream.popped.filterMap s.cvt.encode ∧
    (s.escaped ≠ [] ↔ ∃ f ∈ s.readStream.popped, s.cvt.encode f = none)

theorem tryWrite_flow (s : CommonWsSession) :
    s.tryWriteToDispatch.wsGot = s.wsGot ∧
    s.tryWriteToDispatch.writeStream.pushed ++ s.tryWriteToDispatch.receiving.toList =
      s.writeStream.pushed ++ s.receiving.toList := by
  rcases s.tryWrite_cases with
    ⟨_, h⟩ | ⟨f, hf, _, h⟩ | ⟨f, hf, _, _, h⟩ | ⟨f, hf, _, _, h⟩ <;> rw [h]
  · exact ⟨rfl, rfl⟩
  · exact ⟨rfl, rfl⟩
  · exact ⟨rfl, rfl⟩
  · exact ⟨rfl, by simp [wsReceive, hf]⟩

theorem SameInbound.inFlow (h : SameInbound s t) (hf : InFlow lib s) : InFlow lib t := by
  obtain ⟨_, hw, hr, h1, h2, hg, _, _, _⟩ := h
  simpa only [InFlow, hw, hr, h1, h2, hg] using hf

theorem SameOutbound.outFlow (h : SameOutbound s t) (hf : OutFlow s) : OutFlow t := by
  obtain ⟨hv, hr, _, _, _, hs, he, _, _, _⟩ := h
  simpa only [OutFlow, hv, hr, hs, he] using hf

theorem tryRead_outFlow (h : OutFlow s) : OutFlow s.tryReadFromDispatch := by
  rcases s.tryRead_cases with ⟨_, e⟩ | ⟨_, f, rest, hb, e⟩ | ⟨_, _, _, e⟩ | ⟨_, _, _, e⟩ <;> rw [e]
  · exact h
  · obtain ⟨h1, h2⟩ := h
    unfold sendFrame
    split
    next buf he =>
      have hm : s.cvt.encode f = some buf.message := by simp [FrameCvt.encode, he]
      exact ⟨by simp [wsSend, h1, hm], by simpa [wsSend, or_and_right, exists_or, hm] using h2⟩
    next x he =>
      have hm : s.cvt.encode f = none := by simp [FrameCvt.encode, he]
      exact ⟨by simp [escape, h1, hm], by simp [escape, or_and_right, exists_or, hm]⟩
  · exact h
  · exact h

theorem step_inFlow (h : WsStep lib s a t) (hi : s.InInv lib) (hf : InFlow lib s) :
    InFlow lib t := by
  cases h with
  | @wsReceived m due =>
    rcases hf with hd | ⟨_, _, _, _, _, _, hz, _⟩
    · -- a receive was outstanding, so no frame is held and the channel has all that was decoded
      obtain ⟨h1, h2⟩ | ⟨⟨h1, _⟩, _⟩ := hi
      · have hn : s.receiving = none := h2.mpr (by omega)
        rw [hn, Option.toList_none, List.append_nil] at hd
        unfold received
        split
        next e he =>
          refine .inr ⟨s.wsGot, m, e, rfl, he, hd, ?_, ?_, ?_⟩ <;> simp only [wsClose] <;> omega
        next f he =>
          obtain ⟨hg, hp⟩ := tryWrite_flow { s with
            wsReceives := s.wsReceives - 1, wsGot := s.wsGot ++ [m], receiving := some f }
          left
          rw [hg, hp]
          exact hd.snoc he
      · omega
    · omega
  | wsCompletedSend => exact (tryRead_sameInbound _).inFlow hf
  | writeTask due =>
    rcases hf with hd | ⟨_, _, _, _, _, _, _, _, hz⟩
    · obtain ⟨hg, hp⟩ := tryWrite_flow { s with writeTasks := s.writeTasks - 1 }
      left
      rw [hg, hp]
      exact hd
    · omega
  | readTask => exact (tryRead_sameInbound _).inFlow hf
  | fireWrite due =>
    obtain ⟨hw, _⟩ := due
    rcases hf with hd | ⟨_, _, _, _, _, _, _, hz, _⟩
    · exact .inl hd
    · omega
  | fireRead | push | pop | drop | wsClosed => exact hf

theorem step_outFlow (h : WsStep lib s a t) (hf : OutFlow s) : OutFlow t := by
  cases h with
  | wsReceived due => exact (received_sameOutbound _ _ _).outFlow hf
  | wsCompletedSend => exact tryRead_outFlow hf
  | writeTask => exact (tryWrite_sameOutbound _).outFlow hf
  | readTask => exact tryRead_outFlow hf
  | fireWrite | fireRead | push | pop | drop | wsClosed => exact hf

theorem opened_flow (h : WsOpened lib s) : InFlow lib s ∧ OutFlow s := by
  obtain ⟨target, rs, ws, fresh, rfl⟩ := h.eq
  refine ⟨(tryRead_sameInbound _).inFlow (.inl ?_), tryRead_outFlow ⟨?_, ?_⟩⟩
  · show Decodes lib [] (ws.pushed ++ [])
    rw [fresh.pushed]
    exact .nil
  · simp [wsOpened, wsReceive, unopened, construct, fresh.popped]
  · simp [wsOpened, wsReceive, unopened, construct, fresh.popped]

theorem pump_flow {tr : List WsEvent} (h : (pump lib).Run tr s) : InFlow lib s ∧ OutFlow s := by
  induction h with
  | start h => exact opened_flow h
  | next hr hs ih => exact ⟨step_inFlow hs (pump_inv hr).1 ih.1, step_outFlow hs ih.2⟩

theorem step_cvt (h : WsStep lib s a t) : t.cvt = s.cvt := by
  cases h with
  | wsReceived due => exact (received_sameOutbound _ _ _).cvt
  | wsCompletedSend | readTask => exact (tryRead_sameInbound _).cvt
  | writeTask => exact (tryWrite_sameOutbound _).cvt
  | fireWrite | fireRead | push | pop | drop | wsClosed => rfl

end Acord
