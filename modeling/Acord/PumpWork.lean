import Acord.Tunnel

/-! The work that is left: what the two loops of a session can still do of their own accord, priced
so that each such step costs one at least and only what others do can add to it. -/

namespace Acord
open Ac Channels Transition CommonWsSession

variable {lib : DictLib} {s t : CommonWsSession} {a : WsEvent} {b w : Nat}

instance : DecidablePred WsEvent.outer
  | .push _ | .pop _ | .drop | .wsClosed => isTrue trivial
  | .wsReceived _ | .wsCompletedSend | .writeTask | .readTask | .fireWrite | .fireRead => isFalse id

/-! One for an event that the outbound loop, or the inbound one, brings about by itself. -/

def WsEvent.sends : WsEvent → Nat
  | .wsCompletedSend | .readTask | .fireRead => 1
  | _ => 0

def WsEvent.receives : WsEvent → Nat
  | .wsReceived _ | .writeTask | .fireWrite => 1
  | _ => 0

theorem tryWrite_writeTasks (s : CommonWsSession) :
    s.tryWriteToDispatch.writeTasks = s.writeTasks := by
  rcases s.tryWrite_cases with
    ⟨_, h⟩ | ⟨_, _, _, h⟩ | ⟨_, _, _, _, h⟩ | ⟨_, _, _, _, h⟩ <;> rw [h] <;> rfl

theorem received_writeTasks (lib : DictLib) (s : CommonWsSession) (m : Message) :
    (s.received lib m).writeTasks = s.writeTasks := by
  unfold received
  split
  · rfl
  · exact tryWrite_writeTasks _

theorem tryRead_readTasks (s : CommonWsSession) :
    s.tryReadFromDispatch.readTasks = s.readTasks := by
  rcases s.tryRead_cases with ⟨_, h⟩ | ⟨_, f, rest, hb, h⟩ | ⟨_, _, _, h⟩ | ⟨_, _, _, h⟩
  · exact congrArg readTasks h
  · have hsend : (s.sendFrame f (s.readStream.pop f rest hb)).readTasks = s.readTasks := by
      unfold sendFrame
      split <;> rfl
    exact h ▸ hsend
  · exact (congrArg readTasks h).trans rfl
  · exact (congrArg readTasks h).trans rfl

structure Woken (s : CommonWsSession) : Prop where
  read : 0 < s.readTasks → s.readStream.closed = true ∨ s.readStream.buf ≠ []
  write : 0 < s.writeTasks → s.writeStream.closed = true ∨ ¬ s.writeStream.full

theorem Woken.of_inbound (h : Woken s) (hr : t.readStream = s.readStream)
    (hn : t.readTasks = s.readTasks) (hw : t.writeTasks = 0) : Woken t where
  read hdue := by
    rw [hr]
    exact h.read (hn ▸ hdue)
  write hdue := by omega

theorem Woken.of_outbound (h : Woken s) (hw : t.writeStream = s.writeStream)
    (hn : t.writeTasks = s.writeTasks) (hr : t.readTasks = 0) : Woken t where
  read hdue := by omega
  write hdue := by
    rw [hw]
    exact h.write (hn ▸ hdue)

theorem step_woken (hs : WsStep lib s a t) (hin : s.InInv lib) (hout : s.OutInv) (h : Woken s) :
    Woken t := by
  cases hs with
  | @wsReceived m due =>
    -- the receive is the one token of the inbound loop, so it has no task
    have hnone : s.writeTasks = 0 := by
      rcases hin with ⟨h1, _⟩ | ⟨⟨h1, _⟩, _⟩ <;> omega
    obtain ⟨_, hr, _, _, hn, _⟩ := received_sameOutbound lib
      { s with wsReceives := s.wsReceives - 1, wsGot := s.wsGot ++ [m] } m
    exact h.of_inbound hr hn ((received_writeTasks _ _ _).trans hnone)
  | writeTask due =>
    have hone : s.writeTasks - 1 = 0 := by
      rcases hin with ⟨h1, _⟩ | ⟨⟨_, _, h1⟩, _⟩ <;> omega
    obtain ⟨_, hr, _, _, hn, _⟩ := tryWrite_sameOutbound { s with writeTasks := s.writeTasks - 1 }
    exact h.of_inbound hr hn ((tryWrite_writeTasks _).trans hone)
  | wsCompletedSend due =>
    have hnone : s.readTasks = 0 := by
      rcases hout with ⟨h1, _⟩ | ⟨⟨h1, _⟩, _⟩ <;> omega
    have hsame := tryRead_sameInbound { s with wsSends := s.wsSends - 1, sending := none }
    exact h.of_outbound hsame.writeStream hsame.writeTasks ((tryRead_readTasks _).trans hnone)
  | readTask due =>
    have hone : s.readTasks - 1 = 0 := by
      rcases hout with ⟨h1, _⟩ | ⟨⟨_, _, h1⟩, _⟩ <;> omega
    have hsame := tryRead_sameInbound { s with readTasks := s.readTasks - 1 }
    exact h.of_outbound hsame.writeStream hsame.writeTasks ((tryRead_readTasks _).trans hone)
  | fireWrite due => exact ⟨h.read, fun _ => due.2⟩
  | fireRead due => exact ⟨fun _ => due.2, h.write⟩
  | push => exact ⟨fun _ => .inr (by simp), h.write⟩
  | @pop f rest due =>
    refine ⟨h.read, fun hdue => (h.write hdue).imp_right fun hroom hfull => hroom ?_⟩
    have hle : s.writeStream.cap ≤ rest.length := hfull
    have hlen : s.writeStream.buf.length = rest.length + 1 := by rw [due, List.length_cons]
    exact Nat.le_of_lt (by omega)
  | drop | wsClosed => exact ⟨fun _ => .inl rfl, fun _ => .inl rfl⟩

/-! Prices: `w` for a message on the wire, `b` for a frame that waits in the stream the session
writes to. -/

namespace CommonWsSession

def outWork (w : Nat) (s : CommonWsSession) : Nat :=
  (w + 4) * s.readStream.buf.length + 2 * s.readStream.readWaits + s.readTasks + 3 * s.wsSends

def inWork (b : Nat) (s : CommonWsSession) : Nat :=
  b * s.writeStream.buf.length + (b + 2) * s.writeStream.writeWaits + (b + 1) * s.writeTasks

end CommonWsSession

theorem SameOutbound.outWork (h : SameOutbound s t) :
    t.outWork w = s.outWork w ∧ t.wsSent = s.wsSent := by
  unfold CommonWsSession.outWork
  rw [h.readStream, h.readTasks, h.wsSends]
  exact ⟨rfl, h.wsSent⟩

theorem SameInbound.inWork (h : SameInbound s t) : t.inWork b = s.inWork b := by
  unfold CommonWsSession.inWork
  rw [h.writeStream, h.writeTasks]

theorem tryRead_outWork (w : Nat) (s : CommonWsSession) :
    s.tryReadFromDispatch.outWork w + w * s.tryReadFromDispatch.wsSent.length ≤
      s.outWork w + w * s.wsSent.length +
        if s.readStream.closed = true ∨ s.readStream.buf ≠ [] then 0 else 2 := by
  rcases s.tryRead_cases with ⟨_, h⟩ | ⟨_, f, rest, hb, h⟩ | ⟨_, hb, hc, h⟩ | ⟨_, hb, hc, h⟩ <;>
    rw [h]
  · exact Nat.le_add_right _ _
  · have hlen : (w + 4) * s.readStream.buf.length = (w + 4) * rest.length + w + 4 := by
      rw [hb, List.length_cons, Nat.mul_add, Nat.mul_one, ← Nat.add_assoc]
    rw [if_pos (.inr (by simp [hb]))]
    unfold sendFrame
    split
    · simp only [CommonWsSession.outWork, CommonWsSession.wsSend, Channel.pop_buf,
        Channel.pop_readWaits, List.length_append, List.length_singleton, Nat.mul_add]
      omega
    · simp only [CommonWsSession.outWork, CommonWsSession.escape, Channel.pop_buf,
        Channel.pop_readWaits]
      omega
  · exact Nat.le_add_right _ _
  · rw [if_neg (by simp [hb, hc])]
    simp only [CommonWsSession.outWork, Channel.awaitRead_buf, Channel.awaitRead_readWaits]
    omega

theorem tryWrite_inWork (b : Nat) (s : CommonWsSession) :
    s.tryWriteToDispatch.inWork b ≤ s.inWork b + b +
      if s.writeStream.closed = true ∨ ¬ s.writeStream.full then 0 else 2 := by
  rcases s.tryWrite_cases with
    ⟨_, h⟩ | ⟨_, _, _, h⟩ | ⟨_, _, hc, hfull, h⟩ | ⟨_, _, hc, hfull, h⟩ <;> rw [h]
  · omega
  · exact Nat.le_add_right_of_le (Nat.le_add_right _ _)
  · rw [if_neg (by simp [hc, hfull])]
    simp only [CommonWsSession.inWork, Channel.awaitWrite_buf, Channel.awaitWrite_writeWaits,
      Nat.mul_add]
    omega
  · rw [if_pos (.inr hfull)]
    simp only [CommonWsSession.inWork, CommonWsSession.wsReceive, Channel.push_buf,
      Channel.push_writeWaits, List.length_append, List.length_singleton, Nat.mul_add]
    omega

theorem received_inWork (lib : DictLib) (b : Nat) (s : CommonWsSession) (m : Message) :
    (s.received lib m).inWork b ≤ s.inWork b + b + 2 := by
  unfold received
  split
  · have hsame : (wsClose { s with receiving := some ⟨[], .null⟩ }).inWork b = s.inWork b := rfl
    omega
  next f _ =>
    have hwrite := tryWrite_inWork b { s with receiving := some f }
    have hsame : inWork b { s with receiving := some f } = s.inWork b := rfl
    split at hwrite <;> omega

/-- What the outbound loop does pays for itself, a message it puts on the wire included; a frame
pushed to it brings the price of its way there. -/
theorem step_outWork (hs : WsStep lib s a t) (h : Woken s) :
    t.outWork w + w * t.wsSent.length + a.sends ≤
      s.outWork w + w * s.wsSent.length + (w + 4) * a.pushed.toList.length := by
  cases hs with
  | @wsReceived m due =>
    obtain ⟨hout, hsent⟩ := (received_sameOutbound lib
      { s with wsReceives := s.wsReceives - 1, wsGot := s.wsGot ++ [m] } m).outWork (w := w)
    rw [hout, hsent]
    exact Nat.le_add_right _ _
  | writeTask due =>
    obtain ⟨hout, hsent⟩ := (tryWrite_sameOutbound
      { s with writeTasks := s.writeTasks - 1 }).outWork (w := w)
    rw [hout, hsent]
    exact Nat.le_add_right _ _
  | wsCompletedSend due =>
    have hread := tryRead_outWork w { s with wsSends := s.wsSends - 1, sending := none }
    have hless : outWork w { s with wsSends := s.wsSends - 1, sending := none } + 3 = s.outWork w := by
      simp only [outWork]
      omega
    show outWork w (wsCompletedSend _) + w * (wsCompletedSend _).wsSent.length + 1 ≤ _
    unfold wsCompletedSend
    dsimp only at hread ⊢
    split at hread <;> omega
  | readTask due =>
    have hread := tryRead_outWork w { s with readTasks := s.readTasks - 1 }
    have hless : outWork w { s with readTasks := s.readTasks - 1 } + 1 = s.outWork w := by
      simp only [outWork]
      omega
    rw [if_pos (h.read due)] at hread
    show outWork w (tryReadFromDispatch _) + w * (tryReadFromDispatch _).wsSent.length + 1 ≤ _
    dsimp only at hread ⊢
    omega
  | fireRead due =>
    have hone := due.1
    simp only [outWork, Channel.fireRead_buf, Channel.fireRead_readWaits, WsEvent.sends]
    omega
  | @push f live room =>
    simp only [outWork, Channel.push_buf, Channel.push_readWaits, List.length_append,
      List.length_singleton, Nat.mul_add, WsEvent.sends, WsEvent.pushed, Option.toList_some]
    omega
  | fireWrite | pop | drop | wsClosed => exact Nat.le_add_right _ _

theorem step_inWork (hs : WsStep lib s a t) (h : Woken s) :
    t.inWork b + a.receives + b * a.popped.toList.length ≤
      s.inWork b + (b + 3) * a.message.toList.length := by
  -- what the inbound loop does pays for itself, or is paid for by the message it takes from the
  -- wire; a frame popped takes its price with it
  cases hs with
  | @wsReceived m due =>
    have hin := received_inWork lib b
      { s with wsReceives := s.wsReceives - 1, wsGot := s.wsGot ++ [m] } m
    have hsame : inWork b { s with wsReceives := s.wsReceives - 1, wsGot := s.wsGot ++ [m] } =
        s.inWork b := rfl
    show inWork b (received lib _ m) + 1 + b * 0 ≤ s.inWork b + (b + 3) * 1
    omega
  | writeTask due =>
    have hin := tryWrite_inWork b { s with writeTasks := s.writeTasks - 1 }
    have hless : inWork b { s with writeTasks := s.writeTasks - 1 } + (b + 1) = s.inWork b := by
      obtain ⟨n, hn⟩ := Nat.exists_eq_succ_of_ne_zero (Nat.ne_of_gt due)
      simp only [inWork, hn, Nat.succ_eq_add_one, Nat.add_sub_cancel, Nat.mul_add, Nat.mul_one]
      omega
    rw [if_pos (h.write due)] at hin
    show inWork b (tryWriteToDispatch _) + 1 + b * 0 ≤ _
    omega
  | wsCompletedSend due =>
    have hin := (tryRead_sameInbound { s with wsSends := s.wsSends - 1, sending := none }).inWork
      (b := b)
    exact Nat.le_add_right_of_le (Nat.le_of_eq hin)
  | readTask due =>
    have hin := (tryRead_sameInbound { s with readTasks := s.readTasks - 1 }).inWork (b := b)
    exact Nat.le_add_right_of_le (Nat.le_of_eq hin)
  | fireWrite due =>
    obtain ⟨n, hn⟩ := Nat.exists_eq_succ_of_ne_zero (Nat.ne_of_gt due.1)
    simp only [inWork, Channel.fireWrite_buf, Channel.fireWrite_writeWaits, hn, Nat.succ_eq_add_one,
      Nat.add_sub_cancel, Nat.mul_add, Nat.mul_one, WsEvent.receives, WsEvent.popped,
      Option.toList_none, List.length_nil]
    omega
  | @pop f rest due =>
    simp only [inWork, Channel.pop_buf, Channel.pop_writeWaits, due, List.length_cons, Nat.mul_add,
      Nat.mul_one, WsEvent.receives, WsEvent.popped, Option.toList_some, List.length_nil]
    omega
  | fireRead | push | drop | wsClosed => exact Nat.le_add_right _ _

/-! A session that has just been opened. -/

theorem opened_woken (h : WsOpened lib s) : Woken s := by
  obtain ⟨target, rs, ws, _, rfl⟩ := h.eq
  have hsame := tryRead_sameInbound (wsOpened lib target (.unopened rs ws))
  have hread := tryRead_readTasks (wsOpened lib target (.unopened rs ws))
  refine ⟨fun hdue => ?_, fun hdue => ?_⟩
  · rw [hread] at hdue
    exact absurd hdue (Nat.lt_irrefl 0)
  · rw [hsame.writeTasks] at hdue
    exact absurd hdue (Nat.lt_irrefl 0)

theorem opened_work (h : WsOpened lib s) : s.outWork w + w * s.wsSent.length + s.inWork b ≤
    (w + 4) * s.readStream.pushed.length + 2 := by
  obtain ⟨target, rs, ws, ⟨hpopped, hpushed, hreads, hwrites⟩, rfl⟩ := h.eq
  have hsame := tryRead_sameInbound (wsOpened lib target (.unopened rs ws))
  have hread := tryRead_outWork w (wsOpened lib target (.unopened rs ws))
  have hbuf : rs.pushed = rs.buf := by rw [rs.ledger, hpopped, List.nil_append]
  have hnone : ws.buf = [] := by
    have hledger := ws.ledger
    rw [hpushed] at hledger
    exact (List.append_eq_nil_iff.mp hledger.symm).2
  have hout : (wsOpened lib target (.unopened rs ws)).outWork w = (w + 4) * rs.pushed.length := by
    rw [hbuf]
    simp [outWork, wsOpened, wsReceive, unopened, construct, hreads]
  have hin : (wsOpened lib target (.unopened rs ws)).inWork b = 0 := by
    simp [inWork, wsOpened, wsReceive, unopened, construct, hnone, hwrites]
  have hsent : (wsOpened lib target (.unopened rs ws)).wsSent = [] := rfl
  have hwas : (wsOpened lib target (.unopened rs ws)).readStream.pushed = rs.pushed := rfl
  rw [hsame.pushed, hsame.inWork, hin, hwas]
  rw [hout, hsent] at hread
  split at hread <;> simp only [List.length_nil, Nat.mul_zero] at hread <;> omega

end Acord
