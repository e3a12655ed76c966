import Acord.CommonWsSession

/-! Each loop of the pump holds exactly one token: the receive, wait callback or task that will
run it next. -/

namespace Acord
open Ac Channels Transition

namespace CommonWsSession
variable (s : CommonWsSession)

theorem tryWrite_cases :
    (s.receiving = none ∧ s.tryWriteToDispatch = s) ∨
    (∃ f, s.receiving = some f ∧ s.writeStream.closed = true ∧ s.tryWriteToDispatch = s.wsClose) ∨
    (∃ f, s.receiving = some f ∧ s.writeStream.closed = false ∧ s.writeStream.full ∧
      s.tryWriteToDispatch = { s with writeStream := s.writeStream.awaitWrite }) ∨
    (∃ f, s.receiving = some f ∧ s.writeStream.closed = false ∧ ¬ s.writeStream.full ∧
      s.tryWriteToDispatch =
        wsReceive { s with writeStream := s.writeStream.push f, receiving := none }) := by
  obtain ⟨cvt, rs, ws, rcv, snd, n1, n2, n3, n4, n5, l1, l2, l3⟩ := s
  cases rcv with
  | none => exact .inl ⟨rfl, rfl⟩
  | some f =>
    rcases ws.write_cases f with ⟨hc, h⟩ | ⟨hc, hf, h⟩ | ⟨hc, hf, h⟩
    · exact .inr (.inl ⟨f, rfl, hc, by simp only [tryWriteToDispatch, h]⟩)
    · exact .inr (.inr (.inl ⟨f, rfl, hc, hf, by simp only [tryWriteToDispatch, h]⟩))
    · exact .inr (.inr (.inr ⟨f, rfl, hc, hf, by simp only [tryWriteToDispatch, h]⟩))

theorem doSend_some {buf : Frame} (h : s.sending = some buf) : s.doSend = s.wsSend buf.message := by
  simp only [doSend, h, Frame.message]
  split <;> rfl

def sendFrame (f : Ac.Frame) (ch : Channel Ac.Frame) : CommonWsSession :=
  match s.cvt.fromAcFrame .fresh f with
  | .ok buf => wsSend { s with readStream := ch, sending := some buf } buf.message
  | .error e => escape { s with readStream := ch, sending := some .fresh } e

theorem tryRead_cases :
    (s.sending.isSome ∧ s.tryReadFromDispatch = s) ∨
    (s.sending = none ∧ ∃ f rest, ∃ h : s.readStream.buf = f :: rest,
      s.tryReadFromDispatch = s.sendFrame f (s.readStream.pop f rest h)) ∨
    (s.sending = none ∧ s.readStream.buf = [] ∧ s.readStream.closed = true ∧
      s.tryReadFromDispatch = s.wsClose) ∨
    (s.sending = none ∧ s.readStream.buf = [] ∧ s.readStream.closed = false ∧
      s.tryReadFromDispatch = { s with readStream := s.readStream.awaitRead }) := by
  obtain ⟨cvt, rs, ws, rcv, snd, n1, n2, n3, n4, n5, l1, l2, l3⟩ := s
  cases snd with
  | some buf => exact .inl ⟨rfl, rfl⟩
  | none =>
    rcases rs.read_cases with ⟨f, rest, hb, h⟩ | ⟨hb, hc, h⟩ | ⟨hb, hc, h⟩
    · refine .inr (.inl ⟨rfl, f, rest, hb, ?_⟩)
      simp only [tryReadFromDispatch, h, sendFrame]
      cases cvt.fromAcFrame .fresh f with
      | ok buf => exact doSend_some _ rfl
      | error e => rfl
    · exact .inr (.inr (.inl ⟨rfl, hb, hc, by simp only [tryReadFromDispatch, h]⟩))
    · exact .inr (.inr (.inr ⟨rfl, hb, hc, by simp only [tryReadFromDispatch, h]⟩))

/-- The inbound loop at work: one receive, write callback or write task, and a frame held unless
it is the receive. -/
def InLive : Prop :=
  s.wsReceives + s.writeStream.writeWaits + s.writeTasks = 1 ∧
    (s.receiving = none ↔ s.wsReceives = 1)

def InDead (lib : DictLib) : Prop :=
  -- the inbound loop ended: it called `wsClose` on a closed stream or an undecodable message
  (s.wsReceives = 0 ∧ s.writeStream.writeWaits = 0 ∧ s.writeTasks = 0) ∧ s.receiving ≠ none ∧
    0 < s.wsCloses ∧
    (s.writeStream.closed = true ∨ ∃ m ∈ s.wsGot, ∃ e, decode lib m = .error e)

def InInv (lib : DictLib) : Prop := s.InLive ∨ s.InDead lib

/-- The outbound loop at work: one send, read callback or read task, and a buffer held exactly
when it is the send. -/
def OutLive : Prop :=
  s.wsSends + s.readStream.readWaits + s.readTasks = 1 ∧ (s.sending = none ↔ s.wsSends = 0)

def OutDead : Prop :=
  -- the outbound loop ended: on a closed and drained stream it called `wsClose`, on a frame it
  -- could not encode the exception escaped and `sending` stayed set
  (s.wsSends = 0 ∧ s.readStream.readWaits = 0 ∧ s.readTasks = 0) ∧
    ((s.sending = none ∧ s.readStream.closed = true ∧ s.readStream.buf = [] ∧ 0 < s.wsCloses) ∨
     (s.sending ≠ none ∧ s.escaped ≠ [] ∧ ∃ f ∈ s.readStream.popped, s.cvt.encode f = none))

def OutInv : Prop := s.OutLive ∨ s.OutDead

end CommonWsSession

open CommonWsSession
variable {lib : DictLib} {s t : CommonWsSession} {a : WsEvent}

structure SameInbound (s t : CommonWsSession) : Prop where
  cvt : t.cvt = s.cvt
  writeStream : t.writeStream = s.writeStream
  receiving : t.receiving = s.receiving
  wsReceives : t.wsReceives = s.wsReceives
  writeTasks : t.writeTasks = s.writeTasks
  wsGot : t.wsGot = s.wsGot
  wsCloses : s.wsCloses ≤ t.wsCloses
  pushed : t.readStream.pushed = s.readStream.pushed
  closed : t.readStream.closed = s.readStream.closed

theorem SameInbound.inv (h : SameInbound s t) (hi : s.InInv lib) : t.InInv lib := by
  obtain ⟨_, hw, hr, h1, h2, hg, hc, _, _⟩ := h
  rcases hi with hi | ⟨hz, hn, hcl, he⟩
  · left
    simpa only [InLive, hw, hr, h1, h2] using hi
  · right
    refine ⟨by simpa only [hw, h1, h2] using hz, hr ▸ hn, by omega, ?_⟩
    simpa only [hw, hg] using he

structure SameOutbound (s t : CommonWsSession) : Prop where
  cvt : t.cvt = s.cvt
  readStream : t.readStream = s.readStream
  sending : t.sending = s.sending
  wsSends : t.wsSends = s.wsSends
  readTasks : t.readTasks = s.readTasks
  wsSent : t.wsSent = s.wsSent
  escaped : t.escaped = s.escaped
  wsCloses : s.wsCloses ≤ t.wsCloses
  popped : t.writeStream.popped = s.writeStream.popped
  closed : t.writeStream.closed = s.writeStream.closed

theorem SameOutbound.inv (h : SameOutbound s t) (hi : s.OutInv) : t.OutInv := by
  obtain ⟨hv, hr, hs, h1, h2, _, he, hc, _, _⟩ := h
  rcases hi with hi | ⟨hz, ⟨hn, hcl, hb, hp⟩ | hx⟩
  · left
    simpa only [OutLive, hr, hs, h1, h2] using hi
  · right
    exact ⟨by simpa only [hr, h1, h2] using hz, .inl ⟨hs ▸ hn, hr ▸ hcl, hr ▸ hb, by omega⟩⟩
  · right
    exact ⟨by simpa only [hr, h1, h2] using hz, .inr (by simpa only [hs, he, hr, hv] using hx)⟩

theorem tryWrite_sameOutbound (s : CommonWsSession) : SameOutbound s s.tryWriteToDispatch := by
  rcases s.tryWrite_cases with
    ⟨_, h⟩ | ⟨_, _, _, h⟩ | ⟨_, _, _, _, h⟩ | ⟨_, _, _, _, h⟩ <;> rw [h] <;>
    constructor <;> simp [wsClose, wsReceive]

theorem received_sameOutbound (lib : DictLib) (s : CommonWsSession) (m : Message) :
    SameOutbound s (s.received lib m) := by
  unfold received
  split
  next e he => constructor <;> simp [wsClose]
  next f he =>
    have h := tryWrite_sameOutbound { s with receiving := some f }
    exact ⟨h.cvt, h.readStream, h.sending, h.wsSends, h.readTasks, h.wsSent, h.escaped, h.wsCloses,
      h.popped, h.closed⟩

theorem tryRead_sameInbound (s : CommonWsSession) : SameInbound s s.tryReadFromDispatch := by
  rcases s.tryRead_cases with ⟨_, h⟩ | ⟨_, f, rest, hb, h⟩ | ⟨_, _, _, h⟩ | ⟨_, _, _, h⟩ <;> rw [h]
  · constructor <;> simp
  · unfold sendFrame
    split <;> constructor <;> simp [wsSend, escape]
  · constructor <;> simp [wsClose]
  · constructor <;> simp

theorem tryWrite_inInv (hz : s.wsReceives = 0 ∧ s.writeStream.writeWaits = 0 ∧ s.writeTasks = 0)
    (hr : s.receiving ≠ none) : s.tryWriteToDispatch.InInv lib := by
  obtain ⟨h1, h2, h3⟩ := hz
  rcases s.tryWrite_cases with
    ⟨h, _⟩ | ⟨f, hf, hc, h⟩ | ⟨f, hf, hc, hfull, h⟩ | ⟨f, hf, hc, hfull, h⟩
  · exact absurd h hr
  · rw [h]
    exact .inr ⟨⟨h1, h2, h3⟩, hr, Nat.succ_pos _, .inl hc⟩
  · rw [h]
    exact .inl ⟨by simp [h1, h2, h3], by simp [hf, h1]⟩
  · rw [h]
    exact .inl ⟨by simp [wsReceive, h1, h2, h3], by simp [wsReceive, h1]⟩

theorem tryRead_outInv (hz : s.wsSends = 0 ∧ s.readStream.readWaits = 0 ∧ s.readTasks = 0)
    (hn : s.sending = none) : s.tryReadFromDispatch.OutInv := by
  obtain ⟨h1, h2, h3⟩ := hz
  rcases s.tryRead_cases with ⟨h, _⟩ | ⟨_, f, rest, hb, h⟩ | ⟨_, hb, hc, h⟩ | ⟨_, hb, hc, h⟩
  · simp [hn] at h
  · rw [h]
    unfold sendFrame
    split
    next buf he => exact .inl ⟨by simp [wsSend, h1, h2, h3], by simp [wsSend]⟩
    next e he =>
      -- the exception leaves a buffer held that no send will complete
      refine .inr ⟨by simp [escape, h1, h2, h3],
        .inr ⟨by simp [escape], by simp [escape], f, ?_, ?_⟩⟩
      · simp [escape]
      · simp [escape, FrameCvt.encode, he]
  · rw [h]
    exact .inr ⟨⟨h1, h2, h3⟩, .inl ⟨hn, hc, hb, Nat.succ_pos _⟩⟩
  · rw [h]
    exact .inl ⟨by simp [h1, h2, h3], by simp [hn, h1]⟩

theorem spend_first {a b c : Nat} (h : a + b + c = 1) (ha : 0 < a) : a - 1 = 0 ∧ b = 0 ∧ c = 0 := by
  omega

theorem spend_last {a b c : Nat} (h : a + b + c = 1) (hc : 0 < c) : a = 0 ∧ b = 0 ∧ c - 1 = 0 := by
  omega

theorem step_inInv (h : WsStep lib s a t) (hi : s.InInv lib) : t.InInv lib := by
  cases h with
  | @wsReceived m due =>
    -- a receive is outstanding, so it is the one token and no frame is held
    rcases hi with ⟨h1, h2⟩ | ⟨⟨h1, _⟩, _⟩
    · have hz := spend_first h1 due
      unfold received
      split
      next e he =>
        have hgot : m ∈ s.wsGot ++ [m] := List.mem_append_right _ (List.mem_singleton_self m)
        exact .inr ⟨hz, nofun, Nat.succ_pos _, .inr ⟨m, hgot, e, he⟩⟩
      next f he => exact tryWrite_inInv hz (by simp)
    · omega
  -- the handlers of the outbound loop leave the inbound one as it was
  | wsCompletedSend => exact (tryRead_sameInbound _).inv hi
  | writeTask due =>
    rcases hi with ⟨h1, h2⟩ | ⟨⟨_, _, h3⟩, _⟩
    · apply tryWrite_inInv (spend_last h1 due)
      -- the task is the one token, so no receive is outstanding and a frame is held
      intro hn
      have hone : s.wsReceives = 1 := h2.mp hn
      omega
    · omega
  | readTask => exact (tryRead_sameInbound _).inv hi
  | fireWrite due =>
    obtain ⟨hw, _⟩ := due
    rcases hi with ⟨h1, h2⟩ | ⟨⟨_, h3, _⟩, _⟩
    · exact .inl ⟨by simp only [Channel.fireWrite_writeWaits]; omega, h2⟩
    · omega
  | fireRead | push => exact hi
  | pop => exact hi
  | drop | wsClosed =>
    rcases hi with hi | ⟨hz, hr, hc, _⟩
    · exact .inl hi
    · exact .inr ⟨hz, hr, hc, .inl rfl⟩

theorem step_outInv (h : WsStep lib s a t) (hi : s.OutInv) : t.OutInv := by
  cases h with
  | @wsReceived m due =>
    exact (received_sameOutbound _ _ m).inv hi
  | wsCompletedSend due =>
    rcases hi with ⟨h1, h2⟩ | ⟨⟨h1, _⟩, _⟩
    · exact tryRead_outInv (spend_first h1 due) rfl
    · omega
  | writeTask => exact (tryWrite_sameOutbound _).inv hi
  | readTask due =>
    rcases hi with ⟨h1, h2⟩ | ⟨⟨_, _, h3⟩, _⟩
    · have hnone : s.sending = none := h2.mpr (spend_last h1 due).1
      exact tryRead_outInv (spend_last h1 due) hnone
    · omega
  | fireWrite => exact hi
  | fireRead due =>
    obtain ⟨hr, _⟩ := due
    rcases hi with ⟨h1, h2⟩ | ⟨⟨_, h3, _⟩, _⟩
    · exact .inl ⟨by simp only [Channel.fireRead_readWaits]; omega, h2⟩
    · omega
  | push live room =>
    rcases hi with hi | ⟨hz, ⟨_, hc, _⟩ | hx⟩
    · exact .inl hi
    · simp [live] at hc
    · exact .inr ⟨hz, .inr hx⟩
  | pop => exact hi
  | drop | wsClosed =>
    rcases hi with hi | ⟨hz, ⟨hn, _, hb, hc⟩ | hx⟩
    · exact .inl hi
    · exact .inr ⟨hz, .inl ⟨hn, rfl, hb, hc⟩⟩
    · exact .inr ⟨hz, .inr hx⟩

theorem WsOpened.eq (h : WsOpened lib s) : ∃ target rs ws, Unused rs ws ∧
    s = (wsOpened lib target (.unopened rs ws)).tryReadFromDispatch := by
  cases h with
  | server target fresh => exact ⟨target, _, _, fresh, rfl⟩
  | client target fresh => exact ⟨target, _, _, fresh, rfl⟩

theorem opened_inv (h : WsOpened lib s) : s.InInv lib ∧ s.OutInv := by
  obtain ⟨target, rs, ws, fresh, rfl⟩ := h.eq
  refine ⟨(tryRead_sameInbound _).inv (.inl ⟨?_, ?_⟩),
    tryRead_outInv ⟨rfl, fresh.readWaits, rfl⟩ rfl⟩
  · simp [wsOpened, wsReceive, unopened, construct, fresh.writeWaits]
  · simp [wsOpened, wsReceive, unopened, construct]

theorem pump_inv {tr : List WsEvent} (h : (pump lib).Run tr s) : s.InInv lib ∧ s.OutInv := by
  apply h.invariant (I := fun s => s.InInv lib ∧ s.OutInv)
  · intro s hs
    exact opened_inv hs
  · intro s a t hi hs
    exact ⟨step_inInv hs hi.1, step_outInv hs hi.2⟩

theorem pump_asserts {tr : List WsEvent} (h : (pump lib).Run tr s) :
    (0 < s.wsReceives → s.receiving = none) ∧ (0 < s.wsSends → s.sending ≠ none) := by
  obtain ⟨⟨h1, h2⟩ | ⟨⟨h1, _⟩, _⟩, ⟨h3, h4⟩ | ⟨⟨h3, _⟩, _⟩⟩ := pump_inv h
  · refine ⟨fun hr => h2.mpr (by omega), fun hs hn => ?_⟩
    have hzero : s.wsSends = 0 := h4.mp hn
    omega
  · exact ⟨fun hr => h2.mpr (by omega), fun hs => by omega⟩
  · refine ⟨fun hr => by omega, fun hs hn => ?_⟩
    have hzero : s.wsSends = 0 := h4.mp hn
    omega
  · exact ⟨fun hr => by omega, fun hs => by omega⟩

def ExactlyOne (p q r : Prop) : Prop := (p ∧ ¬ q ∧ ¬ r) ∨ (¬ p ∧ q ∧ ¬ r) ∨ (¬ p ∧ ¬ q ∧ r)

theorem exactlyOne_token {a b c : Nat} {p q : Prop} (h : a + b + c = 1) (hp : p ↔ a = 1)
    (hq : q ↔ a = 0) : ExactlyOne (a = 1 ∧ p) (q ∧ b = 1) (q ∧ c = 1) := by
  simp only [ExactlyOne, hp, hq]
  omega

/-- While no stream is closed, every message decoded and every frame read could be encoded,
each loop holds exactly one token. -/
theorem pump_one_token {tr : List WsEvent} (h : (pump lib).Run tr s)
    (hopen : s.readStream.closed = false ∧ s.writeStream.closed = false)
    (hdec : ∀ m ∈ s.wsGot, ∃ f, decode lib m = .ok f)
    (henc : ∀ f ∈ s.readStream.popped, ∃ m, s.cvt.encode f = some m) :
    (s.wsReceives + s.writeStream.writeWaits + s.writeTasks = 1 ∧
      ExactlyOne (s.wsReceives = 1 ∧ s.receiving = none)
        (s.receiving ≠ none ∧ s.writeStream.writeWaits = 1)
        (s.receiving ≠ none ∧ s.writeTasks = 1)) ∧
    (s.wsSends + s.readStream.readWaits + s.readTasks = 1 ∧
      ExactlyOne (s.wsSends = 1 ∧ s.sending ≠ none)
        (s.sending = none ∧ s.readStream.readWaits = 1)
        (s.sending = none ∧ s.readTasks = 1)) := by
  obtain ⟨hin, hout⟩ := pump_inv h
  constructor
  · rcases hin with ⟨h1, h2⟩ | ⟨_, _, _, hc | ⟨m, hm, e, he⟩⟩
    · refine ⟨h1, exactlyOne_token h1 h2 ⟨fun hr => ?_, fun hz hn => ?_⟩⟩
      · have hne : s.wsReceives ≠ 1 := fun h => hr (h2.mpr h)
        omega
      · have hone : s.wsReceives = 1 := h2.mp hn
        omega
    · simp [hc] at hopen
    · obtain ⟨f, hf⟩ := hdec m hm
      simp [hf] at he
  · rcases hout with ⟨h1, h2⟩ | ⟨_, ⟨_, hc, _⟩ | ⟨_, _, f, hf, he⟩⟩
    · refine ⟨h1, exactlyOne_token h1 ⟨fun hs => ?_, fun hone hn => ?_⟩ h2⟩
      · have hne : s.wsSends ≠ 0 := fun h => hs (h2.mpr h)
        omega
      · have hzero : s.wsSends = 0 := h2.mp hn
        omega
    · simp [hc] at hopen
    · obtain ⟨m, hm⟩ := henc f hf
      simp [hm] at he

theorem pump_one_token_hi :
    ∃ tr s, (pump sampleLib).Run tr s ∧ s.wsSent = [.binary hiCbor] ∧
      s.wsReceives + s.writeStream.writeWaits + s.writeTasks = 1 ∧
      s.wsSends + s.readStream.readWaits + s.readTasks = 1 := by
  have h0 : (pump sampleLib).init _ := .server (lit "/cbor") (unused_create 1 1)
  have h1 := (System.Run.start h0).next (a := WsEvent.push hiFrame) (.push rfl (by decide))
  have h2 := h1.next (a := WsEvent.fireRead) (.fireRead ⟨by decide, .inr (by simp)⟩)
  have h3 := h2.next (a := WsEvent.wsReceived (.binary hiCbor)) (.wsReceived (by decide))
  have h4 := h3.next (a := WsEvent.readTask) (.readTask (by decide))
  have h := pump_one_token h4 ⟨rfl, rfl⟩
    (fun m hm => ⟨hiFrame, by obtain rfl := List.mem_singleton.mp hm; rfl⟩)
    (fun f hf => ⟨.binary hiCbor, by obtain rfl := List.mem_singleton.mp hf; rfl⟩)
  exact ⟨_, _, h4, rfl, h.1.1, h.2.1⟩

end Acord
