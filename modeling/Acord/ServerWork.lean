import Acord.ServerProgress
import Acord.PumpWork

/-! The server's side of a connection comes to rest, whatever its peer sends: the steps it takes by
itself are bounded by the messages it got, in whatever order they are taken. -/

namespace Acord
open Ac Channels RequestLoop Transition CommonWsSession

variable {lib : DictLib} {sch : SchemaLib} {target : Str} {d d' : ServerSide sch}
  {tr : List (ServerEvent sch)} {s t : CommonWsSession} {a : WsEvent}

def Owes (n : Nat) (p : LocalProg Bool) : Prop :=
  -- what the coroutine may still cost: eight for each call, which is itself and the way of a frame
  -- it pushes, and one to poll
  (p.Ended ∧ p ≠ .ret true) ∨ ∃ k, p.Within k ∧ 8 * k + 1 ≤ n

theorem Owes.step {s q : Server localEffects Exn LocalEnv} {e : LocalEvent sch} {n : Nat}
    (ho : Owes n s.prog) (run : (localSession sch).step s e q) :
    ∃ m, Owes m q.prog ∧ m + 7 * (accepted [e]).length + 1 ≤ n + 41 * (polledFrames [e]).length := by
  -- a call of the coroutine is paid for by what its handler owed, and a request by the frame it
  -- polled
  cases run with
  | @request w r hok =>
    rcases ho with ⟨_, hne⟩ | ⟨k, _, hle⟩
    · exact absurd rfl hne
    · cases r with
      | frame f =>
        refine ⟨41, .inr ⟨5, serve_within sch _, Nat.le_refl 41⟩, ?_⟩
        show 41 + 7 * 0 + 1 ≤ n + 41 * 1
        omega
      | closed | detached =>
        refine ⟨0, .inl ⟨trivial, nofun⟩, ?_⟩
        show 0 + 7 * 0 + 1 ≤ n + 41 * 0
        omega
  | @call op k w r hok =>
    rcases ho with ⟨hend, _⟩ | ⟨j, hk, hle⟩
    · exact hend.elim
    · obtain _ | j := j
      · exact hk.elim
      · refine ⟨8 * j + 1, .inr ⟨j, hk r, Nat.le_refl _⟩, ?_⟩
        have hone : (accepted ([.call op r] : List (LocalEvent sch))).length ≤ 1 :=
          List.length_filterMap_le _ _
        omega

theorem owes_start (sch : SchemaLib) : Owes 9 (acordRun sch).start := by
  have hone : (acordRun sch).start.Within 1 :=
    Prog.Within.tryCatch (m := 1) (n := 0)
      ((push_within _).bind (n := 0) fun _ => Prog.within_ret true 0)
      fun e => by cases e <;> trivial
  exact .inr ⟨1, hone, Nat.le_refl 9⟩

/-! Prices: 41 for a frame in the stream the coroutine polls, which is what its handler may cost,
and four for one that is still to be sent. -/

def ServerSide.work (d : ServerSide sch) : Nat := d.server.outWork 0 + d.server.inWork 41

instance : DecidablePred (@ServerEvent.outer sch)
  | .server (.wsReceived _) => isTrue trivial
  | .server (.push _) | .server (.pop _) | .server .drop | .server .wsClosed => isTrue trivial
  | .server .wsCompletedSend | .server .writeTask | .server .readTask => isFalse id
  | .server .fireWrite | .server .fireRead => isFalse id
  | .session _ => isFalse id
  | .providerPop _ | .providerPush _ | .drop => isTrue trivial

def ServerEvent.cost (e : ServerEvent sch) : Nat := if e.outer then 0 else 1

theorem ServerEvent.server_cost (a : WsEvent) :
    (ServerEvent.server a : ServerEvent sch).cost ≤ a.sends + a.receives := by
  cases a <;> exact Nat.le_of_ble_eq_true rfl

theorem server_work {c : CommonWsSession} (hw : Woken d.server) (hs : WsStep lib d.server a c) :
    { d with server := c }.work + (a.sends + a.receives) + 41 * a.popped.toList.length ≤
      d.work + 44 * a.message.toList.length + 4 * a.pushed.toList.length := by
  have hout := step_outWork (w := 0) hs hw
  have hin := step_inWork (b := 41) hs hw
  unfold ServerSide.work
  dsimp only
  omega

theorem dispatch_work {c : CommonWsSession} (hw : Woken d.server) (hs : WsStep lib d.server a c)
    (hm : a.message = none) :
    { d with server := c }.work + 41 * a.popped.toList.length ≤
      d.work + 4 * a.pushed.toList.length := by
  have hle := server_work hw hs
  rw [hm, Option.toList_none, List.length_nil] at hle
  omega

theorem streams_work (lib : DictLib) {e : LocalEvent sch} {q : Server localEffects Exn LocalEnv}
    {h : Handoff} (hw : Woken d.server) (io : Streams sch d.handoff e h) :
    (d.called e q h).work + 41 * (polledFrames [e]).length ≤
      d.work + 4 * (accepted [e]).length := by
  cases io with
  | @polled f rest due =>
    have step : WsStep lib d.server (.pop f) _ := .pop due
    exact dispatch_work hw step rfl
  | @pushed f live room =>
    have step : WsStep lib d.server (.push f) _ := .push live room
    exact dispatch_work hw step rfl
  | refused =>
    have step : WsStep lib d.server .drop _ := .drop
    exact dispatch_work hw step rfl
  | pollClosed | pollDetached | pushClosed | pushDetached | attached | connect | aioPush | aioPoll
  | detach => exact Nat.le_refl _

/-- Whatever the server does by itself lessens the work that is left by one at least; it grows by 44
for each message received, by four for each frame the provider writes, and by nothing else. -/
theorem serverStep_work {e : ServerEvent sch} {n : Nat} (hw : Woken d.server)
    (ho : Owes n d.session.prog) (hs : ServerStep lib sch d e d') :
    ∃ m, Owes m d'.session.prog ∧ d'.work + m + e.cost + 44 * d.server.wsGot.length +
      4 * d.providerWrote.length ≤ d.work + n + 44 * d'.server.wsGot.length +
        4 * d'.providerWrote.length := by
  cases hs with
  | @server a c step own =>
    have hwork := server_work hw step
    have hgot := congrArg List.length (step_wsGot step)
    have hcost : (ServerEvent.server a : ServerEvent sch).cost ≤ _ := ServerEvent.server_cost a
    rw [List.length_append] at hgot
    rw [(popped_of_own own).2, Option.toList_none, List.length_nil] at hwork
    refine ⟨n, ho, ?_⟩
    dsimp only
    omega
  | @session e q h run io =>
    have hwork := streams_work lib (q := q) hw io
    obtain ⟨m, hm, hle⟩ := ho.step run
    refine ⟨m, hm, ?_⟩
    show (d.called e q h).work + m + 1 + 44 * d.server.wsGot.length +
      4 * d.providerWrote.length ≤ d.work + n + 44 * d.server.wsGot.length +
        4 * d.providerWrote.length
    omega
  | @providerPop f rest own due =>
    have step : WsStep lib d.server (.pop f) _ := .pop due
    have hwork := dispatch_work hw step rfl
    have hcost : (ServerEvent.providerPop f : ServerEvent sch).cost = 0 := rfl
    unfold ServerSide.work at hwork ⊢
    refine ⟨n, ho, ?_⟩
    dsimp only [WsEvent.pushed, Option.toList_none, List.length_nil] at hwork ⊢
    omega
  | @providerPush f own live room =>
    have step : WsStep lib d.server (.push f) _ := .push live room
    have hwork := dispatch_work hw step rfl
    have hcost : (ServerEvent.providerPush f : ServerEvent sch).cost = 0 := rfl
    unfold ServerSide.work at hwork ⊢
    refine ⟨n, ho, ?_⟩
    dsimp only [WsEvent.pushed, Option.toList_some, List.length_singleton] at hwork ⊢
    rw [List.length_append, List.length_singleton]
    omega
  | drop own =>
    have step : WsStep lib d.server .drop _ := .drop
    have hwork := dispatch_work hw step rfl
    have hcost : (ServerEvent.drop : ServerEvent sch).cost = 0 := rfl
    have hsame : d.server.wsClosed.wsGot.length = d.server.wsGot.length := rfl
    unfold ServerSide.work at hwork ⊢
    refine ⟨n, ho, ?_⟩
    dsimp only [WsEvent.pushed, Option.toList_none, List.length_nil] at hwork ⊢
    omega

theorem pump_woken {tr : List WsEvent} (h : (pump lib).Run tr s) : Woken s := by
  induction h with
  | start h => exact opened_woken h
  | next hr hs ih =>
    obtain ⟨hin, hout⟩ := pump_inv hr
    exact step_woken hs hin hout ih

theorem ServerOpened.work (h : ServerOpened lib sch target d) : ∃ n, Owes n d.session.prog ∧
    d.work + n ≤ 44 * d.server.wsGot.length + 4 * d.providerWrote.length + 11 := by
  have hpushed : ∀ rs : Channel Ac.Frame, (serverWsOpened lib target rs
      (.create serverCap)).readStream.pushed = rs.pushed := fun rs => (tryRead_sameInbound _).pushed
  cases h with
  | waiting =>
    have hopened : WsOpened lib _ := .server target (unused_create serverCap serverCap)
    have hle := opened_work (w := 0) (b := 41) hopened
    refine ⟨9, owes_start sch, ?_⟩
    have hnone : (Channel.create serverCap : Channel Ac.Frame).pushed.length = 0 := rfl
    rw [hpushed, hnone] at hle
    unfold ServerSide.work
    dsimp only
    omega
  | greeted =>
    have hopened : WsOpened lib _ := .server target (@unused_greeting sch)
    have hle := opened_work (w := 0) (b := 41) hopened
    have hone : (greetingStream sch).pushed.length = 1 := rfl
    refine ⟨1, .inr ⟨0, trivial, Nat.le_refl 1⟩, ?_⟩
    rw [hpushed, hone] at hle
    unfold ServerSide.work
    dsimp only
    omega

theorem server_spends (h : (serverSide lib sch target).Run tr d) : ∃ n, Owes n d.session.prog ∧
    d.work + n + tr.countP (fun e => ¬ e.outer) ≤
      44 * d.server.wsGot.length + 4 * d.providerWrote.length + 11 := by
  induction h with
  | start h =>
    obtain ⟨n, hn, hle⟩ := ServerOpened.work h
    exact ⟨n, hn, hle⟩
  | @next tr d d' e hr hs ih =>
    obtain ⟨n, hn, hle⟩ := ih
    obtain ⟨m, hm, hwork⟩ := serverStep_work (pump_woken (server_pump hr)) hn hs
    have hcost : [e].countP (fun e => ¬ e.outer) = e.cost := by
      by_cases ho : e.outer <;> simp [ServerEvent.cost, ho]
    refine ⟨m, hm, ?_⟩
    rw [List.countP_append, hcost]
    omega

theorem serverStep_given {e : ServerEvent sch} (hs : ServerStep lib sch d e d') (he : ¬ e.outer) :
    d'.server.wsGot = d.server.wsGot ∧ d'.providerWrote = d.providerWrote := by
  cases hs with
  | @server a c step own =>
    have hnone : a.message = none := by
      cases a with
      | wsReceived => exact absurd trivial he
      | _ => rfl
    have hgot := step_wsGot step
    rw [hnone] at hgot
    exact ⟨hgot.trans (List.append_nil _), rfl⟩
  | session => exact ⟨rfl, rfl⟩
  | providerPop | providerPush | drop => exact absurd trivial he

theorem serverRun_given (h : ((serverSide lib sch target).after d).Run tr d')
    (he : ∀ e ∈ tr, ¬ e.outer) :
    d'.server.wsGot = d.server.wsGot ∧ d'.providerWrote = d.providerWrote := by
  induction h with
  | start h =>
    obtain rfl := h
    exact ⟨rfl, rfl⟩
  | @next tr d₁ d₂ e _ hs ih =>
    obtain ⟨hall, hlast⟩ := List.forall_mem_append.mp he
    obtain ⟨h1, h2⟩ := ih hall
    obtain ⟨h3, h4⟩ := serverStep_given hs (hlast e (List.mem_singleton_self e))
    exact ⟨h3.trans h1, h4.trans h2⟩

/-- Whatever a peer sends, in every run the server has taken for it at most 44 steps for each message
received, four for each frame the provider wrote, and 11 for the connection; and left to itself it
comes to rest. -/
theorem server_settles (h : (serverSide lib sch target).Run tr d) :
    tr.countP (fun e => ¬ e.outer) ≤
      44 * d.server.wsGot.length + 4 * d.providerWrote.length + 11 ∧
    ∃ tr' d', ((serverSide lib sch target).after d).Run tr' d' ∧ (∀ e ∈ tr', ¬ e.outer) ∧
      d'.Quiet lib := by
  constructor
  · obtain ⟨n, _, hle⟩ := server_spends h
    omega
  · have hbound : ∀ tr' d', ((serverSide lib sch target).after d).Run tr' d' →
        (∀ e ∈ tr', ¬ e.outer) →
        tr'.length ≤ 44 * d.server.wsGot.length + 4 * d.providerWrote.length + 11 := by
      intro tr' d' h' hall
      obtain ⟨n, _, hle⟩ := server_spends (h.append h')
      obtain ⟨h1, h2⟩ := serverRun_given h' hall
      have hlen : tr'.countP (fun e => ¬ e.outer) = tr'.length :=
        List.countP_eq_length.mpr fun e he => decide_eq_true (hall e he)
      rw [h1, h2, List.countP_append, hlen] at hle
      omega
    obtain ⟨tr', d', h', hall, hquiet⟩ := System.settles hbound
    exact ⟨tr', d', h', hall, fun e t hs => Classical.not_not.mp (hquiet e t hs)⟩

theorem server_settles_page : ∃ (tr : List (ServerEvent sampleSchema)) (d : ServerSide sampleSchema),
    (serverSide pageLib sampleSchema (lit "/")).Run tr d ∧
    tr.countP (fun e => ¬ e.outer) ≤ 44 * 2 + 4 * d.providerWrote.length + 11 ∧
    ∃ tr' d', ((serverSide pageLib sampleSchema (lit "/")).after d).Run tr' d' ∧
      d'.Quiet pageLib := by
  obtain ⟨tr, d, h, hgot, _⟩ := page_talked
  have htwo : d.server.wsGot.length = 2 := congrArg List.length hgot
  obtain ⟨hle, tr', d', h', _, hquiet⟩ := server_settles h
  exact ⟨tr, d, h, htwo ▸ hle, tr', d', h', hquiet⟩

end Acord
