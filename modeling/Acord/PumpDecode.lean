import Acord.PumpFlow

/-! Malformed messages: only the frames before the first one reach the dispatch, and the inbound
loop does not run again after it. -/

namespace Acord
open Ac Channels Transition CommonWsSession

variable {lib : DictLib} {s t : CommonWsSession} {a : WsEvent}

def decodedPrefix (lib : DictLib) : List Message → List Ac.Frame
  | [] => []
  | m :: ms =>
    match decode lib m with
    | .ok f => f :: decodedPrefix lib ms
    | .error _ => []

theorem Decodes.decodedPrefix_append {ms rest : List Message} {fs : List Ac.Frame}
    (h : Decodes lib ms fs) : decodedPrefix lib (ms ++ rest) = fs ++ decodedPrefix lib rest := by
  induction h with
  | nil => rfl
  | cons hm _ ih =>
    simp only [List.cons_append, decodedPrefix, hm]
    rw [ih]

theorem Decodes.decodedPrefix_eq {ms : List Message} {fs : List Ac.Frame} (h : Decodes lib ms fs) :
    decodedPrefix lib ms = fs := by
  have he : decodedPrefix lib (ms ++ []) = _ := h.decodedPrefix_append
  rwa [List.append_nil, decodedPrefix, List.append_nil] at he

theorem InFlow.pushed_prefix (h : InFlow lib s) :
    s.writeStream.pushed <+: decodedPrefix lib s.wsGot := by
  rcases h with hd | ⟨ms, m, e, hg, _, hd, _⟩
  · rw [hd.decodedPrefix_eq]
    exact List.prefix_append _ _
  · rw [hg, hd.decodedPrefix_append]
    exact List.prefix_append _ _

theorem Decodes.decoded {ms : List Message} {fs : List Ac.Frame} (h : Decodes lib ms fs)
    {m : Message} (hm : m ∈ ms) : ∃ f, decode lib m = .ok f := by
  induction h with
  | nil => exact (List.not_mem_nil hm).elim
  | cons hd _ ih =>
    rcases List.mem_cons.mp hm with rfl | hm
    · exact ⟨_, hd⟩
    · exact ih hm

theorem InFlow.pushed_eq (h : InFlow lib s) {m : Message} {e : Exn} (hm : m ∈ s.wsGot)
    (hd : decode lib m = .error e) : s.writeStream.pushed = decodedPrefix lib s.wsGot := by
  rcases h with hok | ⟨ms, m', e', hg, he', hok, _⟩
  · obtain ⟨f, hf⟩ := hok.decoded hm
    rw [hd] at hf
    cases hf
  · rw [hg, hok.decodedPrefix_append, decodedPrefix, he', List.append_nil]

/-- The inbound loop gave up on a message: nothing will run it again, and it still holds the
frame that the failed decode left blank. -/
structure Refused (s : CommonWsSession) : Prop where
  wsReceives : s.wsReceives = 0
  writeWaits : s.writeStream.writeWaits = 0
  writeTasks : s.writeTasks = 0
  receiving : s.receiving = some ⟨[], .null⟩
  wsCloses : 0 < s.wsCloses

theorem SameInbound.refused (h : SameInbound s t) (hr : Refused s) : Refused t where
  wsReceives := h.wsReceives.trans hr.wsReceives
  writeWaits := h.writeStream ▸ hr.writeWaits
  writeTasks := h.writeTasks.trans hr.writeTasks
  receiving := h.receiving.trans hr.receiving
  wsCloses := Nat.lt_of_lt_of_le hr.wsCloses h.wsCloses

theorem step_refused (h : WsStep lib s a t) (hr : Refused s) :
    Refused t ∧ t.wsGot = s.wsGot ∧ t.writeStream.pushed = s.writeStream.pushed := by
  cases h with
  | wsReceived due =>
    rw [hr.wsReceives] at due
    exact absurd due (Nat.lt_irrefl 0)
  | writeTask due =>
    rw [hr.writeTasks] at due
    exact absurd due (Nat.lt_irrefl 0)
  | fireWrite due =>
    have hw : 0 < s.writeStream.writeWaits := due.1
    rw [hr.writeWaits] at hw
    exact absurd hw (Nat.lt_irrefl 0)
  | wsCompletedSend =>
    have hi := tryRead_sameInbound { s with wsSends := s.wsSends - 1, sending := none }
    have hs : Refused { s with wsSends := s.wsSends - 1, sending := none } :=
      ⟨hr.wsReceives, hr.writeWaits, hr.writeTasks, hr.receiving, hr.wsCloses⟩
    exact ⟨hi.refused hs, hi.wsGot, congrArg Channel.pushed hi.writeStream⟩
  | readTask =>
    have hi := tryRead_sameInbound { s with readTasks := s.readTasks - 1 }
    have hs : Refused { s with readTasks := s.readTasks - 1 } :=
      ⟨hr.wsReceives, hr.writeWaits, hr.writeTasks, hr.receiving, hr.wsCloses⟩
    exact ⟨hi.refused hs, hi.wsGot, congrArg Channel.pushed hi.writeStream⟩
  | fireRead | push | pop | drop | wsClosed =>
    exact ⟨⟨hr.wsReceives, hr.writeWaits, hr.writeTasks, hr.receiving, hr.wsCloses⟩, rfl, rfl⟩

theorem after_refused {tr : List WsEvent} (hr : Refused s) (h : ((pump lib).after s).Run tr t) :
    Refused t ∧ t.wsGot = s.wsGot ∧ t.writeStream.pushed = s.writeStream.pushed := by
  induction h with
  | start h =>
    obtain rfl := h
    exact ⟨hr, rfl, rfl⟩
  | next _ hs ih =>
    obtain ⟨hr', hg, hp⟩ := ih
    obtain ⟨hr'', hg', hp'⟩ := step_refused hs hr'
    exact ⟨hr'', hg'.trans hg, hp'.trans hp⟩

theorem received_error {m : Message} {e : Exn} (hd : decode lib m = .error e) :
    s.received lib m = wsClose { s with receiving := some ⟨[], .null⟩ } := by
  simp only [received, hd]

theorem received_refused {m : Message} {e : Exn} (due : 0 < s.wsReceives) (hi : s.InInv lib)
    (hd : decode lib m = .error e) :
    Refused (received lib { s with
      wsReceives := s.wsReceives - 1, wsGot := s.wsGot ++ [m] } m) := by
  -- a receive was outstanding, so it was the one thing that could run the inbound loop
  obtain ⟨h1, _⟩ | ⟨⟨h1, _⟩, _⟩ := hi
  · obtain ⟨hr, hw, ht⟩ := spend_first h1 due
    rw [received_error hd]
    exact ⟨hr, hw, ht, rfl, Nat.succ_pos _⟩
  · omega

theorem wsGot_grows (h : WsStep lib s a t) {m : Message} (hm : m ∈ t.wsGot) (hs : m ∉ s.wsGot) :
    0 < s.wsReceives ∧ t = received lib { s with
      wsReceives := s.wsReceives - 1, wsGot := s.wsGot ++ [m] } m := by
  cases h with
  | @wsReceived m' due =>
    have hg : (received lib { s with
        wsReceives := s.wsReceives - 1, wsGot := s.wsGot ++ [m'] } m').wsGot = s.wsGot ++ [m'] := by
      unfold received
      split
      · rfl
      · exact (tryWrite_flow _).1
    rw [hg, List.mem_append, List.mem_singleton] at hm
    obtain rfl := hm.resolve_left hs
    exact ⟨due, rfl⟩
  | wsCompletedSend =>
    unfold CommonWsSession.wsCompletedSend at hm
    rw [(tryRead_sameInbound _).wsGot] at hm
    exact absurd hm hs
  | readTask =>
    rw [(tryRead_sameInbound _).wsGot] at hm
    exact absurd hm hs
  | writeTask =>
    rw [(tryWrite_flow _).1] at hm
    exact absurd hm hs
  | fireWrite | fireRead | push | pop | drop | wsClosed => exact absurd hm hs

theorem pump_refused {tr : List WsEvent} (h : (pump lib).Run tr s) {m : Message} {e : Exn}
    (hm : m ∈ s.wsGot) (hd : decode lib m = .error e) : Refused s := by
  induction h with
  | start h =>
    obtain ⟨target, rs, ws, fresh, rfl⟩ := h.eq
    rw [(tryRead_sameInbound _).wsGot] at hm
    exact (List.not_mem_nil hm).elim
  | @next tr s t a hr hs ih =>
    by_cases hold : m ∈ s.wsGot
    · exact (step_refused hs (ih hold)).1
    · obtain ⟨due, rfl⟩ := wsGot_grows hs hm hold
      exact received_refused due (pump_inv hr).1 hd

/-- In every run the frames accepted by `write_stream` are a prefix of the decodings of the
messages before the first undecodable one. Once such a message came, `wsClose` was called, and
whatever happens from then on no receive is issued, nothing more is written, and the frame of
the failed decode stays where it is. -/
theorem decoded_prefix_dispatched (lib : DictLib) {tr : List WsEvent} {s : CommonWsSession}
    (h : (pump lib).Run tr s) :
    s.writeStream.pushed <+: decodedPrefix lib s.wsGot ∧
    ∀ m ∈ s.wsGot, ∀ e, decode lib m = .error e →
      s.writeStream.pushed = decodedPrefix lib s.wsGot ∧
      ∀ tr' t, ((pump lib).after s).Run tr' t →
        0 < t.wsCloses ∧ t.wsReceives = 0 ∧ t.wsGot = s.wsGot ∧
        t.receiving = some ⟨[], .null⟩ ∧ t.writeStream.pushed = s.writeStream.pushed := by
  have hf : InFlow lib s := (pump_flow h).1
  refine ⟨hf.pushed_prefix, fun m hm e hd => ⟨hf.pushed_eq hm hd, fun tr' t ht => ?_⟩⟩
  obtain ⟨hr, hg, hp⟩ := after_refused (pump_refused h hm hd) ht
  exact ⟨hr.wsCloses, hr.wsReceives, hg, hr.receiving, hp⟩

theorem decoded_prefix_dispatched_hi :
    ∃ s, (pump sampleLib).Run
        [.wsReceived (.binary hiCbor), .wsReceived (.text (lit "x"))] s ∧
      s.writeStream.pushed = [hiFrame] ∧ 0 < s.wsCloses ∧
      ∀ tr t, ((pump sampleLib).after s).Run tr t → t.writeStream.pushed = [hiFrame] := by
  have h0 : (pump sampleLib).init
      (serverWsOpened sampleLib (lit "/cbor") (.create 10) (.create 10)) :=
    .server _ (unused_create 10 10)
  have h1 := (System.Run.start h0).next (a := WsEvent.wsReceived (.binary hiCbor))
    (.wsReceived (by decide))
  have h2 := h1.next (a := WsEvent.wsReceived (.text (lit "x"))) (.wsReceived (by decide))
  obtain ⟨_, hbad⟩ := decoded_prefix_dispatched sampleLib h2
  obtain ⟨hp, hrest⟩ := hbad (.text (lit "x")) (List.mem_append_right _ List.mem_cons_self) _ rfl
  have hw := (hrest [] _ (.start rfl)).1
  refine ⟨_, h2, hp, hw, fun tr t ht => ?_⟩
  obtain ⟨_, _, _, _, h⟩ := hrest tr t ht
  exact h.trans hp

end Acord
