import Acord.DaemonProgress
import Acord.ServerWork

/-! The daemon comes to rest: the steps it takes by itself are bounded by the frames it was given,
in whatever order they are taken. -/

namespace Acord
open Ac Channels RequestLoop Transition CommonWsSession

variable {lib : DictLib} {sch : SchemaLib} {d d' : Daemon sch} {tr : List (DaemonEvent sch)}
  {src src' dst dst' : CommonWsSession} {a : WsEvent} {b : Nat}

def linkWork (b : Nat) (src dst : CommonWsSession) : Nat :=
  src.outWork (b + 3) + (b + 3) * (src.wsSent.length - dst.wsGot.length) + dst.inWork b

theorem Link.work_src (h : Link lib src dst) (hw : Woken src) (hs : WsStep lib src a src') :
    linkWork b src' dst + a.sends ≤ linkWork b src dst + (b + 7) * a.pushed.toList.length := by
  have hwork : src'.outWork (b + 3) + (b + 3) * src'.wsSent.length + a.sends ≤
      src.outWork (b + 3) + (b + 3) * src.wsSent.length + (b + 7) * a.pushed.toList.length :=
    step_outWork hs hw
  obtain ⟨n, hn⟩ := Nat.exists_eq_add_of_le h.wire.length_le
  obtain ⟨k, hk⟩ := Nat.exists_eq_add_of_le (step_wsSent hs).length_le
  have hbefore : src.wsSent.length - dst.wsGot.length = n := by omega
  have hafter : src'.wsSent.length - dst.wsGot.length = n + k := by omega
  unfold linkWork
  rw [hbefore, hafter, Nat.mul_add]
  rw [hk, Nat.mul_add] at hwork
  omega

theorem Link.work_dst (h : Link lib src dst) (hw : Woken dst) (hs : WsStep lib dst a dst')
    (next : ∀ m, a.message = some m → src.wsSent[dst.wsGot.length]? = some m) :
    linkWork b src dst' + a.receives + b * a.popped.toList.length ≤ linkWork b src dst := by
  have hwork := step_inWork (b := b) hs hw
  have hgot := congrArg List.length (step_wsGot hs)
  have hle := (h.step_dst hs next).wire.length_le
  rw [List.length_append] at hgot
  obtain ⟨n, hn⟩ := Nat.exists_eq_add_of_le hle
  have hless : src.wsSent.length - dst.wsGot.length = a.message.toList.length + n := by omega
  unfold linkWork
  rw [hless, hn, Nat.add_sub_cancel_left, Nat.mul_add]
  omega

/-! Prices: 41 for a frame in the stream the coroutine polls, which is what its handler may cost,
and nothing for one in the client's. -/

def Daemon.work (d : Daemon sch) : Nat := linkWork 41 d.client d.server + linkWork 0 d.server d.client

instance : DecidablePred (@DaemonEvent.outer sch)
  | .client a | .server a => inferInstanceAs (Decidable a.outer)
  | .session _ => isFalse id
  | .providerPop _ | .providerPush _ | .drop => isTrue trivial

def DaemonEvent.cost (e : DaemonEvent sch) : Nat := if e.outer then 0 else 1

theorem WsEvent.cost_split (a : WsEvent) : (if a.outer then 0 else 1) = a.sends + a.receives := by
  cases a <;> rfl

theorem work_client {c : CommonWsSession} (hup : Link lib d.client d.server)
    (hdown : Link lib d.server d.client) (hw : Woken d.client) (hs : WsStep lib d.client a c)
    (next : ∀ m, a.message = some m → d.server.wsSent[d.client.wsGot.length]? = some m) :
    { d with client := c }.work + (a.sends + a.receives) ≤ d.work + 48 * a.pushed.toList.length := by
  have hsrc := hup.work_src (b := 41) hw hs
  have hdst := hdown.work_dst (b := 0) hw hs next
  unfold Daemon.work
  dsimp only
  omega

theorem work_server {s : CommonWsSession} (hup : Link lib d.client d.server)
    (hdown : Link lib d.server d.client) (hw : Woken d.server) (hs : WsStep lib d.server a s)
    (next : ∀ m, a.message = some m → d.client.wsSent[d.server.wsGot.length]? = some m) :
    { d with server := s }.work + (a.sends + a.receives) + 41 * a.popped.toList.length ≤
      d.work + 7 * a.pushed.toList.length := by
  have hsrc := hdown.work_src (b := 0) hw hs
  have hdst := hup.work_dst (b := 41) hw hs next
  unfold Daemon.work
  dsimp only
  omega

theorem work_dispatch {s : CommonWsSession} (hup : Link lib d.client d.server)
    (hdown : Link lib d.server d.client) (hw : Woken d.server) (hs : WsStep lib d.server a s)
    (hm : a.message = none) :
    { d with server := s }.work + 41 * a.popped.toList.length ≤
      d.work + 7 * a.pushed.toList.length := by
  have hle := work_server hup hdown hw hs fun m hn => by
    rw [hm] at hn
    cases hn
  omega

theorem work_streams {e : LocalEvent sch} {q : Server localEffects Exn LocalEnv} {h : Handoff}
    (hup : Link lib d.client d.server) (hdown : Link lib d.server d.client) (hw : Woken d.server)
    (io : Streams sch d.handoff e h) :
    (d.called e q h).work + 41 * (polledFrames [e]).length ≤
      d.work + 7 * (accepted [e]).length := by
  cases io with
  | @polled f rest due => exact work_dispatch (a := .pop f) hup hdown hw (.pop due) rfl
  | @pushed f live room => exact work_dispatch (a := .push f) hup hdown hw (.push live room) rfl
  | refused => exact work_dispatch (a := .drop) hup hdown hw .drop rfl
  | pollClosed | pollDetached | pushClosed | pushDetached | attached | connect | aioPush | aioPoll
  | detach => exact Nat.le_refl _

theorem daemonStep_work {e : DaemonEvent sch} {n : Nat} (hup : Link lib d.client d.server)
    (hdown : Link lib d.server d.client) (hw : Woken d.client ∧ Woken d.server)
    (ho : Owes n d.session.prog) (hs : DaemonStep lib sch d e d') :
    ∃ m, Owes m d'.session.prog ∧ d'.work + m + e.cost + 48 * d.client.readStream.pushed.length +
      7 * d.providerWrote.length ≤ d.work + n + 48 * d'.client.readStream.pushed.length +
        7 * d'.providerWrote.length := by
  cases hs with
  | @client a c step next =>
    have hwork := work_client hup hdown hw.1 step next
    have hpushed := congrArg List.length (step_pushed step)
    have hcost : (DaemonEvent.client a : DaemonEvent sch).cost = a.sends + a.receives := a.cost_split
    rw [List.length_append] at hpushed
    refine ⟨n, ho, ?_⟩
    dsimp only
    omega
  | @server a c step next own =>
    have hwork := work_server hup hdown hw.2 step next
    have hcost : (DaemonEvent.server a : DaemonEvent sch).cost = a.sends + a.receives := a.cost_split
    have hnone : a.pushed = none := by
      cases a <;> first | rfl | exact absurd trivial own
    rw [hnone, Option.toList_none, List.length_nil] at hwork
    refine ⟨n, ho, ?_⟩
    dsimp only
    omega
  | @session e q h run io =>
    have hwork := work_streams (q := q) hup hdown hw.2 io
    obtain ⟨m, hm, hle⟩ := ho.step run
    refine ⟨m, hm, ?_⟩
    show (d.called e q h).work + m + 1 + 48 * d.client.readStream.pushed.length +
      7 * d.providerWrote.length ≤ d.work + n + 48 * d.client.readStream.pushed.length +
        7 * d.providerWrote.length
    omega
  | @providerPop f rest own due =>
    have hwork := work_dispatch (a := .pop f) hup hdown hw.2 (.pop due) rfl
    have hcost : (DaemonEvent.providerPop f : DaemonEvent sch).cost = 0 := rfl
    have hnone : (WsEvent.pop f).pushed.toList.length = 0 := rfl
    unfold Daemon.work at hwork ⊢
    refine ⟨n, ho, ?_⟩
    rw [hnone] at hwork
    dsimp only at hwork ⊢
    omega
  | @providerPush f own live room =>
    have hwork := work_dispatch (a := .push f) hup hdown hw.2 (.push live room) rfl
    have hcost : (DaemonEvent.providerPush f : DaemonEvent sch).cost = 0 := rfl
    have hone : (WsEvent.push f).pushed.toList.length = 1 := rfl
    unfold Daemon.work at hwork ⊢
    refine ⟨n, ho, ?_⟩
    rw [hone] at hwork
    dsimp only at hwork ⊢
    rw [List.length_append, List.length_singleton]
    omega
  | drop own =>
    have hwork := work_dispatch hup hdown hw.2 .drop rfl
    have hcost : (DaemonEvent.drop : DaemonEvent sch).cost = 0 := rfl
    have hnone : WsEvent.drop.pushed.toList.length = 0 := rfl
    unfold Daemon.work at hwork ⊢
    refine ⟨n, ho, ?_⟩
    rw [hnone] at hwork
    dsimp only at hwork ⊢
    omega

theorem tunnel_woken {t : Tunnel} {tr : List TunnelEvent} (h : (tunnel lib).Run tr t) :
    Woken t.client ∧ Woken t.server := by
  induction h with
  | start h =>
    obtain ⟨hc, hs⟩ := h
    exact ⟨opened_woken (.client _ hc), opened_woken (.server _ hs)⟩
  | next hr hs ih =>
    obtain ⟨hup, hdown⟩ := tunnel_links hr
    cases hs with
    | client step => exact ⟨step_woken step hdown.inInv hup.outInv ih.1, ih.2⟩
    | server step => exact ⟨ih.1, step_woken step hup.inInv hdown.outInv ih.2⟩

theorem daemon_woken (h : (daemon lib sch).Run tr d) : Woken d.client ∧ Woken d.server := by
  obtain ⟨t, ht, rfl⟩ := (daemonTunnel lib sch).run h
  exact tunnel_woken ht

theorem DaemonOpened.work (h : DaemonOpened lib sch d) : ∃ n, Owes n d.session.prog ∧
    d.work + n ≤ 48 * d.client.readStream.pushed.length + 7 * d.providerWrote.length + 13 := by
  have hbound : ∀ {c s : CommonWsSession}, WsOpened lib c → WsOpened lib s →
      linkWork 41 c s + linkWork 0 s c ≤
        48 * c.readStream.pushed.length + 7 * s.readStream.pushed.length + 4 := by
    intro c s hc hs
    have hclient := opened_work (w := 41 + 3) (b := 0) hc
    have hserver := opened_work (w := 0 + 3) (b := 41) hs
    have hup : c.wsSent.length - s.wsGot.length ≤ c.wsSent.length := Nat.sub_le _ _
    have hdown : s.wsSent.length - c.wsGot.length ≤ s.wsSent.length := Nat.sub_le _ _
    unfold linkWork
    omega
  have hpushed : ∀ (rs : Channel Ac.Frame), (serverWsOpened lib (lit "/cbor") rs
      (.create serverCap)).readStream.pushed = rs.pushed := fun rs => (tryRead_sameInbound _).pushed
  cases h with
  | @waiting cr cw client =>
    have hle := hbound (.client (lit "/cbor") client)
      (.server (lit "/cbor") (unused_create serverCap serverCap))
    refine ⟨9, owes_start sch, ?_⟩
    rw [hpushed] at hle
    unfold Daemon.work
    exact Nat.add_le_add_right hle 9
  | @greeted cr cw client =>
    have hle := hbound (.client (lit "/cbor") client)
      (.server (lit "/cbor") (@unused_greeting sch))
    have hone : (greetingStream sch).pushed.length = 1 := rfl
    refine ⟨1, .inr ⟨0, trivial, Nat.le_refl 1⟩, ?_⟩
    rw [hpushed, hone] at hle
    unfold Daemon.work
    dsimp only
    omega

theorem daemon_spends (h : (daemon lib sch).Run tr d) : ∃ n, Owes n d.session.prog ∧
    d.work + n + tr.countP (fun e => ¬ e.outer) ≤
      48 * d.client.readStream.pushed.length + 7 * d.providerWrote.length + 13 := by
  induction h with
  | start h =>
    obtain ⟨n, hn, hle⟩ := DaemonOpened.work h
    exact ⟨n, hn, hle⟩
  | @next tr d d' e hr hs ih =>
    obtain ⟨n, hn, hle⟩ := ih
    obtain ⟨hup, hdown⟩ := daemon_links hr
    obtain ⟨m, hm, hwork⟩ := daemonStep_work hup hdown (daemon_woken hr) hn hs
    have hcost : [e].countP (fun e => ¬ e.outer) = e.cost := by
      by_cases ho : e.outer <;> simp [DaemonEvent.cost, ho]
    refine ⟨m, hm, ?_⟩
    rw [List.countP_append, hcost]
    omega

theorem daemonStep_given {e : DaemonEvent sch} (hs : DaemonStep lib sch d e d') (he : ¬ e.outer) :
    d'.client.readStream.pushed = d.client.readStream.pushed ∧
      d'.providerWrote = d.providerWrote := by
  cases hs with
  | @client a c step next =>
    have hnone : a.pushed = none := by
      cases a <;> first | rfl | exact absurd trivial he
    have hpushed := step_pushed step
    rw [hnone] at hpushed
    exact ⟨hpushed.trans (List.append_nil _), rfl⟩
  | server | session => exact ⟨rfl, rfl⟩
  | providerPop | providerPush | drop => exact absurd trivial he

theorem daemonRun_given {tr : List (DaemonEvent sch)} (h : ((daemon lib sch).after d).Run tr d')
    (he : ∀ e ∈ tr, ¬ e.outer) : d'.client.readStream.pushed = d.client.readStream.pushed ∧
      d'.providerWrote = d.providerWrote := by
  induction h with
  | start h =>
    obtain rfl := h
    exact ⟨rfl, rfl⟩
  | @next tr d₁ d₂ e _ hs ih =>
    obtain ⟨hall, hlast⟩ := List.forall_mem_append.mp he
    obtain ⟨h1, h2⟩ := ih hall
    obtain ⟨h3, h4⟩ := daemonStep_given hs (hlast e (List.mem_singleton_self e))
    exact ⟨h3.trans h1, h4.trans h2⟩

/-- In every run, the sessions, the websocket, the channels and the coroutine have taken at most 48
steps for each frame the client wrote, 7 for each the provider wrote, and 13 for the connection;
and left to themselves they come to rest. -/
theorem daemon_settles (h : (daemon lib sch).Run tr d) :
    tr.countP (fun e => ¬ e.outer) ≤
      48 * d.client.readStream.pushed.length + 7 * d.providerWrote.length + 13 ∧
    ∃ tr' d', ((daemon lib sch).after d).Run tr' d' ∧ (∀ e ∈ tr', ¬ e.outer) ∧ d'.Quiet lib := by
  constructor
  · obtain ⟨n, _, hle⟩ := daemon_spends h
    omega
  · have hbound : ∀ tr' d', ((daemon lib sch).after d).Run tr' d' → (∀ e ∈ tr', ¬ e.outer) →
        tr'.length ≤ 48 * d.client.readStream.pushed.length + 7 * d.providerWrote.length + 13 := by
      intro tr' d' h' hall
      obtain ⟨n, _, hle⟩ := daemon_spends (h.append h')
      obtain ⟨h1, h2⟩ := daemonRun_given h' hall
      have hlen : tr'.countP (fun e => ¬ e.outer) = tr'.length :=
        List.countP_eq_length.mpr fun e he => decide_eq_true (hall e he)
      rw [h1, h2, List.countP_append, hlen] at hle
      omega
    obtain ⟨tr', d', h', hall, hquiet⟩ := System.settles hbound
    exact ⟨tr', d', h', hall, fun e t hs => Classical.not_not.mp (hquiet e t hs)⟩

theorem daemon_settles_hi : ∃ (tr : List (DaemonEvent sampleSchema)) (d : Daemon sampleSchema),
    (daemon talkLib sampleSchema).Run tr d ∧ tr.countP (fun e => ¬ e.outer) ≤ 61 ∧
    ∃ tr' d', ((daemon talkLib sampleSchema).after d).Run tr' d' ∧ d'.Quiet talkLib := by
  have h0 : (daemon talkLib sampleSchema).init greeted := .greeted (unused_create 10 10)
  have h1 := (System.Run.start h0).next
    (a := DaemonEvent.client (.push hiFrame)) (.client (.push rfl (by decide)) nofun)
  have h2 := h1.next (a := DaemonEvent.client .fireRead)
    (.client (.fireRead ⟨by decide, .inr (by simp)⟩) nofun)
  obtain ⟨hle, tr', d', h', _, hquiet⟩ := daemon_settles h2
  exact ⟨_, _, h2, hle, tr', d', h', hquiet⟩

end Acord
