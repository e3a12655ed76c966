import Acord.PumpFlow

/-! Closing the dispatch: the outbound loop drains it before it calls `wsClose`, the inbound
loop calls `wsClose` as soon as it writes to a closed stream. -/

namespace Acord
open Ac Channels Transition CommonWsSession

variable {lib : DictLib} {s t : CommonWsSession} {a : WsEvent}

def ServiceOk (s : CommonWsSession) : Prop :=
  (∀ f ∈ s.readStream.pushed, ∃ m, s.cvt.encode f = some m) ∧
    s.readStream.closed = s.writeStream.closed

def servedPump (lib : DictLib) : System CommonWsSession WsEvent :=
  ⟨fun s => WsOpened lib s ∧ ServiceOk s, WsStep lib⟩

/-- The peer stays connected and sends decodable messages, the service writes encodable
frames. -/
def WellBehaved (lib : DictLib) (s : CommonWsSession) : WsEvent → Prop
  | .wsReceived m => ∃ f, decode lib m = .ok f
  | .push f => ∃ m, s.cvt.encode f = some m
  | .wsClosed => False
  | _ => True

def CommonWsSession.Drained (s : CommonWsSession) : Prop :=
  s.wsSent.map some = s.readStream.pushed.map s.cvt.encode ∧ s.wsSends = 0

def InboundQuiet (s : CommonWsSession) : WsEvent → Prop
  | .wsReceived _ | .writeTask =>
    s.writeStream.closed = true → s.readStream.buf = [] ∧ s.sending = none
  | _ => True

structure Served (lib : DictLib) (s : CommonWsSession) : Prop where
  inInv : s.InInv lib
  outInv : s.OutInv
  sent : s.wsSent = s.readStream.popped.filterMap s.cvt.encode
  service : ServiceOk s

theorem Served.sent_eq (h : Served lib s) :
    s.wsSent.map some = s.readStream.popped.map s.cvt.encode := by
  rw [h.sent]
  exact map_some_filterMap fun f hf => h.service.1 f (s.readStream.popped_prefix.subset hf)

theorem Served.drained_iff (h : Served lib s) :
    s.Drained ↔ s.readStream.buf = [] ∧ s.wsSends = 0 := by
  unfold Drained
  rw [h.sent_eq]
  refine and_congr_left fun _ => ⟨fun he => ?_, fun hb => by rw [Channel.popped_eq_pushed hb]⟩
  have hlen := congrArg List.length he
  rw [s.readStream.ledger] at hlen
  simpa using hlen

theorem Served.sends_iff (h : Served lib s) : s.wsSends = 0 ↔ s.sending = none := by
  rcases h.outInv with ⟨_, h2⟩ | ⟨⟨h1, _⟩, ⟨hn, _⟩ | ⟨_, _, f, hf, he⟩⟩
  · exact h2.symm
  · exact ⟨fun _ => hn, fun _ => h1⟩
  · obtain ⟨m, hm⟩ := h.service.1 f (s.readStream.popped_prefix.subset hf)
    simp [hm] at he

theorem SameInbound.serviceOk (h : SameInbound s t) (hs : ServiceOk s) : ServiceOk t := by
  unfold ServiceOk
  rw [h.pushed, h.cvt, h.closed, h.writeStream]
  exact hs

theorem SameOutbound.serviceOk (h : SameOutbound s t) (hs : ServiceOk s) : ServiceOk t := by
  unfold ServiceOk
  rw [h.readStream, h.cvt, h.closed]
  exact hs

theorem step_serviceOk (h : WsStep lib s a t) (hw : WellBehaved lib s a) (hs : ServiceOk s) :
    ServiceOk t := by
  cases h with
  | wsReceived => exact (received_sameOutbound _ _ _).serviceOk hs
  | wsCompletedSend | readTask => exact (tryRead_sameInbound _).serviceOk hs
  | writeTask => exact (tryWrite_sameOutbound _).serviceOk hs
  | push live room =>
    refine ⟨fun f hf => ?_, hs.2⟩
    rcases List.mem_append.mp hf with hf | hf
    · exact hs.1 f hf
    · exact List.mem_singleton.mp hf ▸ hw
  | fireWrite | fireRead | pop => exact hs
  | drop => exact ⟨hs.1, rfl⟩
  | wsClosed => exact hw.elim

theorem served {tr : List WsEvent} (h : ((servedPump lib).guard (WellBehaved lib)).Run tr s) :
    Served lib s := by
  have hp : (pump lib).Run tr s :=
    h.of_guard.mono (M := pump lib) (N := servedPump lib) (fun _ h => h.1) fun _ _ _ h => h
  have hs : ServiceOk s :=
    h.invariant (M := (servedPump lib).guard (WellBehaved lib)) (I := ServiceOk)
      (fun _ h => h.2) fun _ _ _ hi h => step_serviceOk h.2 h.1 hi
  exact ⟨(pump_inv hp).1, (pump_inv hp).2, (pump_flow hp).2.1, hs⟩

theorem tryRead_closes (h : s.wsCloses < s.tryReadFromDispatch.wsCloses) :
    s.readStream.buf = [] ∧ s.sending = none ∧ s.tryReadFromDispatch = s.wsClose := by
  rcases s.tryRead_cases with ⟨_, e⟩ | ⟨_, f, rest, hb, e⟩ | ⟨hn, hb, _, e⟩ | ⟨_, _, _, e⟩
  · rw [e] at h
    exact absurd h (Nat.lt_irrefl _)
  · rw [e] at h
    unfold sendFrame at h
    split at h <;> exact absurd h (Nat.lt_irrefl _)
  · exact ⟨hb, hn, e⟩
  · rw [e] at h
    exact absurd h (Nat.lt_irrefl _)

theorem tryWrite_closes (h : s.receiving ≠ none) :
    s.wsCloses < s.tryWriteToDispatch.wsCloses ↔ s.writeStream.closed = true := by
  rcases s.tryWrite_cases with ⟨hn, _⟩ | ⟨_, _, hc, e⟩ | ⟨_, _, hc, _, e⟩ | ⟨_, _, hc, _, e⟩
  · exact absurd hn h
  · simp [e, hc, wsClose]
  · simp [e, hc]
  · simp [e, hc, wsReceive]

theorem step_drained_iff (hs : Served lib s) (ht : Served lib t) (h : WsStep lib s a t)
    (hw : WellBehaved lib s a) :
    (s.wsCloses < t.wsCloses → t.Drained) ↔ InboundQuiet s a := by
  rw [ht.drained_iff, ht.sends_iff]
  cases h with
  -- the inbound loop calls `wsClose` on a closed stream, whatever is still to be sent
  | @wsReceived m due =>
    obtain ⟨f, hf⟩ := hw
    have hfr := received_sameOutbound lib
      { s with wsReceives := s.wsReceives - 1, wsGot := s.wsGot ++ [m] } m
    rw [hfr.readStream, hfr.sending]
    have hc := tryWrite_closes (s := { s with
      wsReceives := s.wsReceives - 1, wsGot := s.wsGot ++ [m], receiving := some f }) (by simp)
    simp only [received, hf, InboundQuiet]
    exact imp_congr hc Iff.rfl
  | writeTask due =>
    have hfr := tryWrite_sameOutbound { s with writeTasks := s.writeTasks - 1 }
    rw [hfr.readStream, hfr.sending]
    have hr : s.receiving ≠ none := by
      rcases hs.inInv with ⟨h1, h2⟩ | ⟨_, hr, _⟩
      · intro hn
        have hone : s.wsReceives = 1 := h2.mp hn
        omega
      · exact hr
    exact imp_congr (tryWrite_closes (s := { s with writeTasks := s.writeTasks - 1 }) hr) Iff.rfl
  -- the outbound loop calls it only with its stream drained
  | wsCompletedSend =>
    refine ⟨fun _ => trivial, fun _ hc => ?_⟩
    obtain ⟨hb, hn, e⟩ :=
      tryRead_closes (s := { s with wsSends := s.wsSends - 1, sending := none }) hc
    unfold wsCompletedSend
    rw [e]
    exact ⟨hb, hn⟩
  | readTask =>
    refine ⟨fun _ => trivial, fun _ hc => ?_⟩
    obtain ⟨hb, hn, e⟩ := tryRead_closes (s := { s with readTasks := s.readTasks - 1 }) hc
    rw [e]
    exact ⟨hb, hn⟩
  | fireWrite | fireRead | push | pop | drop | wsClosed =>
    exact ⟨fun _ => trivial, fun _ hc => absurd hc (Nat.lt_irrefl _)⟩

def Idle (lib : DictLib) (s : CommonWsSession) : Prop :=
  ∀ a t, WsStep lib s a t → (∃ m, a = .wsReceived m) ∨ (∃ f, a = .push f) ∨ (∃ f, a = .pop f) ∨
    a = .drop ∨ a = .wsClosed

theorem Served.idle_drained (h : Served lib s) (hc : s.readStream.closed = true)
    (hidle : Idle lib s) : 0 < s.wsCloses ∧ s.Drained := by
  rw [h.drained_iff]
  rcases h.outInv with ⟨h1, h2⟩ | ⟨⟨hz, _⟩, ⟨_, _, hb, hw⟩ | ⟨_, _, f, hf, he⟩⟩
  · -- a loop at work has a step to take: its token is a send, a due callback or a task
    exfalso
    have hsend : s.wsSends = 0 := by
      by_contra hn
      simpa using hidle _ _ (.wsCompletedSend (by omega))
    have hwait : s.readStream.readWaits = 0 := by
      by_contra hn
      simpa using hidle _ _ (.fireRead ⟨by omega, .inl hc⟩)
    have htask : s.readTasks = 0 := by
      by_contra hn
      simpa using hidle _ _ (.readTask (by omega))
    omega
  · exact ⟨hw, hb, hz⟩
  · obtain ⟨m, hm⟩ := h.service.1 f (s.readStream.popped_prefix.subset hf)
    simp [hm] at he

/-- In every run of a well-behaved peer and service in which no inbound event runs over closed
streams ahead of the outbound loop, `wsClose` is called only after every frame the service
wrote was sent in order and completed, and once the endpoint is dropped and nothing is due it
has been; and any step that breaks the condition while it calls `wsClose` leaves one unsent. -/
theorem close_after_last_frame (lib : DictLib) :
    (∀ tr s, ((servedPump lib).guard fun s a => WellBehaved lib s a ∧ InboundQuiet s a).Run tr s →
      (∀ a t, WsStep lib s a t → WellBehaved lib s a → InboundQuiet s a →
        s.wsCloses < t.wsCloses → t.Drained) ∧
      (s.readStream.closed = true → Idle lib s → 0 < s.wsCloses ∧ s.Drained)) ∧
    (∀ tr s, ((servedPump lib).guard (WellBehaved lib)).Run tr s →
      ∀ a t, WsStep lib s a t → WellBehaved lib s a →
        ((s.wsCloses < t.wsCloses → t.Drained) ↔ InboundQuiet s a)) := by
  have hiff : ∀ tr s, ((servedPump lib).guard (WellBehaved lib)).Run tr s →
      ∀ a t, WsStep lib s a t → WellBehaved lib s a →
        ((s.wsCloses < t.wsCloses → t.Drained) ↔ InboundQuiet s a) :=
    fun tr s hr a t hs hw => step_drained_iff (served hr) (served (hr.next ⟨hw, hs⟩)) hs hw
  refine ⟨fun tr s hr => ?_, hiff⟩
  have hr' : ((servedPump lib).guard (WellBehaved lib)).Run tr s :=
    hr.guard_mono fun _ _ h => h.1
  exact ⟨fun a t hs hw hq => (hiff tr s hr' a t hs hw).mpr hq, (served hr').idle_drained⟩

/-- A message of the client that arrives after the endpoint was dropped makes the session call
`wsClose` while one frame is being sent and another waits in the channel. -/
theorem close_before_last_frame :
    ∃ tr s t, ((servedPump sampleLib).guard (WellBehaved sampleLib)).Run tr s ∧
      WsStep sampleLib s (.wsReceived (.binary hiCbor)) t ∧
      WellBehaved sampleLib s (.wsReceived (.binary hiCbor)) ∧
      tr = [.push hiFrame, .fireRead, .readTask, .push hiFrame, .drop] ∧
      s.wsCloses = 0 ∧ t.wsCloses = 1 ∧ t.wsSends = 1 ∧ t.readStream.buf = [hiFrame] ∧
      ¬ t.Drained := by
  have h0 : (servedPump sampleLib).init
      (serverWsOpened sampleLib (lit "/cbor") (.create 10) (.create 10)) :=
    ⟨.server _ (unused_create 10 10), fun f hf => (List.not_mem_nil hf).elim, rfl⟩
  have henc : ∃ m, (FrameCvt.cbor sampleLib).encode hiFrame = some m := ⟨_, rfl⟩
  have h1 := (System.Run.start (M := (servedPump sampleLib).guard (WellBehaved sampleLib)) h0).next
    (a := WsEvent.push hiFrame) ⟨henc, .push rfl (by decide)⟩
  have h2 := h1.next (a := WsEvent.fireRead) ⟨trivial, .fireRead ⟨by decide, .inr (by simp)⟩⟩
  have h3 := h2.next (a := WsEvent.readTask) ⟨trivial, .readTask (by decide)⟩
  have h4 := h3.next (a := WsEvent.push hiFrame) ⟨henc, .push rfl (by decide)⟩
  have h5 := h4.next (a := WsEvent.drop) ⟨trivial, .drop⟩
  refine ⟨_, _, _, h5, .wsReceived (by decide), ⟨hiFrame, rfl⟩, rfl, rfl, rfl, rfl, rfl, ?_⟩
  intro h
  exact absurd h.2 (by decide)

end Acord
