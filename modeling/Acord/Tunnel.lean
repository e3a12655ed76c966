import Acord.Lib.Pipe
import Acord.PumpFlow

/-! The tunnel between a client and its local session: a client and a server session joined by
a reliable, ordered websocket. Each direction is a first-in first-out pipe. -/

namespace Acord
open Ac Channels Transition CommonWsSession Pipes

variable {lib : DictLib} {src src' dst dst' : CommonWsSession} {a : WsEvent}

def WsEvent.message : WsEvent → Option Message
  | .wsReceived m => some m
  | _ => none

def WsEvent.outer : WsEvent → Prop
  | .push _ | .pop _ | .drop | .wsClosed => True
  | _ => False

theorem step_wsGot (h : WsStep lib src a src') : src'.wsGot = src.wsGot ++ a.message.toList := by
  cases h with
  | @wsReceived m due =>
    unfold received
    split
    · rfl
    next f _ => exact (tryWrite_flow { src with
        wsReceives := src.wsReceives - 1, wsGot := src.wsGot ++ [m], receiving := some f }).1
  | wsCompletedSend | readTask => exact (tryRead_sameInbound _).wsGot.trans (List.append_nil _).symm
  | writeTask => exact (tryWrite_flow _).1.trans (List.append_nil _).symm
  | fireWrite | fireRead | push | pop | drop | wsClosed => exact (List.append_nil _).symm

theorem prefix_of_same (h : src'.wsSent = src.wsSent) : src.wsSent <+: src'.wsSent :=
  h.symm ▸ List.prefix_refl _

theorem tryRead_wsSent (s : CommonWsSession) : s.wsSent <+: s.tryReadFromDispatch.wsSent := by
  rcases s.tryRead_cases with ⟨_, h⟩ | ⟨_, f, rest, hb, h⟩ | ⟨_, _, _, h⟩ | ⟨_, _, _, h⟩
  · exact prefix_of_same (congrArg wsSent h)
  · have hsend : s.wsSent <+: (s.sendFrame f (s.readStream.pop f rest hb)).wsSent := by
      unfold sendFrame
      split
      · exact List.prefix_append _ _
      · exact List.prefix_refl _
    exact h ▸ hsend
  · exact prefix_of_same ((congrArg wsSent h).trans rfl)
  · exact prefix_of_same ((congrArg wsSent h).trans rfl)

theorem step_wsSent (h : WsStep lib src a src') : src.wsSent <+: src'.wsSent := by
  cases h with
  | wsReceived => exact prefix_of_same (received_sameOutbound _ _ _).wsSent
  | writeTask => exact prefix_of_same (tryWrite_sameOutbound _).wsSent
  | wsCompletedSend => exact tryRead_wsSent { src with wsSends := src.wsSends - 1, sending := none }
  | readTask => exact tryRead_wsSent { src with readTasks := src.readTasks - 1 }
  | fireWrite | fireRead | push | pop | drop | wsClosed => exact List.prefix_rfl

structure Link (lib : DictLib) (src dst : CommonWsSession) : Prop where
  cvt : src.cvt = .cbor lib
  outInv : src.OutInv
  outFlow : OutFlow src
  inInv : dst.InInv lib
  inFlow : InFlow lib dst
  wire : dst.wsGot <+: src.wsSent

namespace Link

theorem step_src (h : Link lib src dst) (hs : WsStep lib src a src') : Link lib src' dst :=
  ⟨(step_cvt hs).trans h.cvt, step_outInv hs h.outInv, step_outFlow hs h.outFlow, h.inInv, h.inFlow,
    h.wire.trans (step_wsSent hs)⟩

theorem step_dst (h : Link lib src dst) (hs : WsStep lib dst a dst')
    (next : ∀ m, a.message = some m → src.wsSent[dst.wsGot.length]? = some m) :
    Link lib src dst' := by
  refine ⟨h.cvt, h.outInv, h.outFlow, step_inInv hs h.inInv, step_inFlow hs h.inInv h.inFlow, ?_⟩
  rw [step_wsGot hs]
  cases hm : a.message with
  | none => simpa using h.wire
  | some m =>
    have hk : dst.wsGot ++ [m] = src.wsSent.take (dst.wsGot.length + 1) := by
      rw [List.take_add_one, next m hm, ← List.prefix_iff_eq_take.mp h.wire, Option.toList_some]
    exact ⟨_, hk ▸ List.take_append_drop _ _⟩

end Link

theorem decodes_encodes {fs gs : List Ac.Frame} {ms : List Message}
    (hinv : ∀ f ∈ fs, CborInverts lib f) (hms : ms <+: fs.filterMap (FrameCvt.cbor lib).encode)
    (hdec : Decodes lib ms gs) : gs <+: fs := by
  induction fs generalizing ms gs with
  | nil =>
    obtain rfl : ms = [] := List.prefix_nil.mp hms
    cases hdec
    exact List.prefix_rfl
  | cons f fs ih =>
    obtain ⟨m, henc, hm⟩ := decode_encode_cbor (hinv f List.mem_cons_self)
    rw [List.filterMap_cons_some henc] at hms
    cases hdec with
    | nil => exact List.nil_prefix
    | @cons m' g ms gs hd hdec =>
      obtain ⟨rfl, htail⟩ := List.cons_prefix_cons.mp hms
      obtain rfl : f = g := by simpa [hm] using hd
      have hinv' : ∀ g ∈ fs, CborInverts lib g := fun g hg => hinv g (List.mem_cons_of_mem _ hg)
      exact (List.prefix_cons_inj f).mpr (ih hinv' htail hdec)

namespace Link
variable (h : Link lib src dst) (hinv : ∀ f ∈ src.readStream.pushed, CborInverts lib f)
include h hinv

theorem encodes {f : Ac.Frame} (hf : f ∈ src.readStream.popped) :
    ∃ m, src.cvt.encode f = some m := by
  obtain ⟨m, hm, _⟩ := decode_encode_cbor (hinv f (src.readStream.popped_prefix.subset hf))
  exact ⟨m, h.cvt ▸ hm⟩

theorem decodes {m : Message} (hm : m ∈ dst.wsGot) : ∃ f, decode lib m = .ok f := by
  have hsent := h.wire.subset hm
  rw [h.outFlow.1, h.cvt] at hsent
  obtain ⟨f, hf, henc⟩ := List.mem_filterMap.mp hsent
  obtain ⟨m', henc', hdec⟩ := decode_encode_cbor (hinv f (src.readStream.popped_prefix.subset hf))
  exact ⟨f, Option.some.inj (henc'.symm.trans henc) ▸ hdec⟩

theorem got_decodes : Decodes lib dst.wsGot (dst.writeStream.pushed ++ dst.receiving.toList) := by
  rcases h.inFlow with hd | ⟨ms, m, e, hg, he, _⟩
  · exact hd
  · obtain ⟨f, hf⟩ := h.decodes hinv (m := m) (by simp [hg])
    simp [hf] at he

theorem delivered : dst.writeStream.pushed ++ dst.receiving.toList <+: src.readStream.popped := by
  have hwire := h.wire
  rw [h.outFlow.1, h.cvt] at hwire
  exact decodes_encodes (fun f hf => hinv f (src.readStream.popped_prefix.subset hf)) hwire
    (h.got_decodes hinv)

theorem fifo : dst.writeStream.popped <+: src.readStream.pushed :=
  dst.writeStream.popped_prefix.trans
    ((List.prefix_append _ _).trans ((h.delivered hinv).trans src.readStream.popped_prefix))

theorem src_idle (hopen : src.readStream.closed = false)
    (hidle : ∀ a t, WsStep lib src a t → a.message = none → a.outer) : src.readStream.buf = [] := by
  by_contra hb
  rcases h.outInv with ⟨h1, h2⟩ | ⟨_, ⟨_, hc, _⟩ | ⟨_, _, f, hf, he⟩⟩
  · have hsend : src.wsSends = 0 := by
      by_contra hn
      exact hidle _ _ (.wsCompletedSend (by omega)) rfl
    have htask : src.readTasks = 0 := by
      by_contra hn
      exact hidle _ _ (.readTask (by omega)) rfl
    exact hidle _ _ (.fireRead ⟨by omega, .inr hb⟩) rfl
  · simp [hopen] at hc
  · obtain ⟨m, hm⟩ := h.encodes hinv hf
    simp [hm] at he

theorem dst_idle (hopen : dst.writeStream.closed = false)
    (hidle : ∀ a t, WsStep lib dst a t →
      (∀ m, a.message = some m → src.wsSent[dst.wsGot.length]? = some m) → a.outer) :
    dst.writeStream.pushed = src.readStream.popped ∨ dst.writeStream.full := by
  rcases h.inInv with ⟨h1, h2⟩ | ⟨_, _, _, hc | ⟨m, hm, e, he⟩⟩
  · have htask : dst.writeTasks = 0 := by
      by_contra hn
      exact hidle _ _ (.writeTask (by omega)) (by simp [WsEvent.message])
    rcases Nat.eq_zero_or_pos dst.wsReceives with hz | hpos
    · -- the token is a write callback that cannot fire
      right
      by_contra hf
      exact hidle _ _ (.fireWrite ⟨by omega, .inr hf⟩) (by simp [WsEvent.message])
    · -- the token is a receive that no message is left for
      left
      have hn : src.wsSent[dst.wsGot.length]? = none := by
        cases hm : src.wsSent[dst.wsGot.length]? with
        | none => rfl
        | some m =>
          exact (hidle _ _ (.wsReceived (m := m) hpos) (by simp [WsEvent.message, hm])).elim
      have hlen : src.wsSent.length ≤ dst.wsGot.length := List.getElem?_eq_none_iff.mp hn
      have hr : dst.receiving = none := h2.mpr (by omega)
      have hd := h.got_decodes hinv
      have hp := h.delivered hinv
      rw [hr, Option.toList_none, List.append_nil] at hd hp
      have hsent := congrArg List.length (map_some_filterMap fun f hf => h.encodes hinv (f := f) hf)
      rw [← h.outFlow.1, List.length_map, List.length_map] at hsent
      have hgot : dst.wsGot.length = dst.writeStream.pushed.length := hd.length_eq
      apply hp.eq_of_length_le
      omega
  · simp [hopen] at hc
  · obtain ⟨f, hf⟩ := h.decodes hinv hm
    simp [hf] at he

end Link

/-- A client session and the server session it is connected to. What is on the wire is what
one was given to send and the other has not got yet. -/
structure Tunnel where
  client : CommonWsSession
  server : CommonWsSession

inductive TunnelEvent
  | client (a : WsEvent)
  | server (a : WsEvent)

inductive TunnelOpened (lib : DictLib) : Tunnel → Prop
  | mk {cr cw sr sw : Channel Ac.Frame} (client : Unused cr cw) (server : Unused sr sw) :
      TunnelOpened lib ⟨clientWsOpened lib (lit "/cbor") cr cw,
        serverWsOpened lib (lit "/cbor") sr sw⟩

inductive TunnelStep (lib : DictLib) : Tunnel → TunnelEvent → Tunnel → Prop
  | client {t : Tunnel} {a : WsEvent} {c : CommonWsSession} (step : WsStep lib t.client a c)
      (next : ∀ m, a.message = some m → t.server.wsSent[t.client.wsGot.length]? = some m) :
      TunnelStep lib t (.client a) { t with client := c }
  | server {t : Tunnel} {a : WsEvent} {c : CommonWsSession} (step : WsStep lib t.server a c)
      (next : ∀ m, a.message = some m → t.client.wsSent[t.server.wsGot.length]? = some m) :
      TunnelStep lib t (.server a) { t with server := c }

def tunnel (lib : DictLib) : System Tunnel TunnelEvent := ⟨TunnelOpened lib, TunnelStep lib⟩

def Tunnel.Quiet (lib : DictLib) (t : Tunnel) : Prop :=
  ∀ e t', TunnelStep lib t e t' → match e with | .client a | .server a => a.outer

variable {t : Tunnel} {tr : List TunnelEvent}

theorem opened_link {cr cw sr sw : Channel Ac.Frame} (hc : Unused cr cw) (hs : Unused sr sw) :
    Link lib (clientWsOpened lib (lit "/cbor") cr cw) (serverWsOpened lib (lit "/cbor") sr sw) ∧
    Link lib (serverWsOpened lib (lit "/cbor") sr sw) (clientWsOpened lib (lit "/cbor") cr cw) := by
  have hco : WsOpened lib _ := .client (lit "/cbor") hc
  have hso : WsOpened lib _ := .server (lit "/cbor") hs
  obtain ⟨ci, cout⟩ := opened_inv hco
  obtain ⟨si, sout⟩ := opened_inv hso
  obtain ⟨cf, cof⟩ := opened_flow hco
  obtain ⟨sf, sof⟩ := opened_flow hso
  have hcg : (clientWsOpened lib (lit "/cbor") cr cw).wsGot = [] := (tryRead_sameInbound _).wsGot
  have hsg : (serverWsOpened lib (lit "/cbor") sr sw).wsGot = [] := (tryRead_sameInbound _).wsGot
  exact ⟨⟨(tryRead_sameInbound _).cvt, cout, cof, si, sf, hsg ▸ List.nil_prefix⟩,
    ⟨(tryRead_sameInbound _).cvt, sout, sof, ci, cf, hcg ▸ List.nil_prefix⟩⟩

theorem tunnel_links (h : (tunnel lib).Run tr t) :
    Link lib t.client t.server ∧ Link lib t.server t.client := by
  apply h.invariant (I := fun t => Link lib t.client t.server ∧ Link lib t.server t.client)
  · rintro _ ⟨hc, hs⟩
    exact opened_link hc hs
  · rintro t e t' ⟨hup, hdown⟩ hs
    cases hs with
    | client step next => exact ⟨hup.step_src step, hdown.step_dst step next⟩
    | server step next => exact ⟨hup.step_dst step next, hdown.step_src step⟩

/-- In each direction the frames popped are a prefix of the frames pushed, and when nothing is
closed and only the two ends can move, every pushed frame has reached its destination channel or
that is full. -/
theorem tunnel_fifo_and_progress (h : (tunnel lib).Run tr t)
    (hup : ∀ f ∈ t.client.readStream.pushed, CborInverts lib f)
    (hdown : ∀ f ∈ t.server.readStream.pushed, CborInverts lib f) :
    (t.server.writeStream.popped <+: t.client.readStream.pushed ∧
      t.client.writeStream.popped <+: t.server.readStream.pushed) ∧
    (t.client.readStream.closed = false → t.client.writeStream.closed = false →
      t.server.readStream.closed = false → t.server.writeStream.closed = false → t.Quiet lib →
      (t.server.writeStream.pushed = t.client.readStream.pushed ∨ t.server.writeStream.full) ∧
      (t.client.writeStream.pushed = t.server.readStream.pushed ∨ t.client.writeStream.full)) := by
  obtain ⟨hl, hl'⟩ := tunnel_links h
  refine ⟨⟨hl.fifo hup, hl'.fifo hdown⟩, fun hcr hcw hsr hsw hq => ?_⟩
  have hcb := hl.src_idle hup hcr fun a c hs hm => hq _ _ (.client hs (by simp [hm]))
  have hsb := hl'.src_idle hdown hsr fun a c hs hm => hq _ _ (.server hs (by simp [hm]))
  rw [← Channel.popped_eq_pushed hcb, ← Channel.popped_eq_pushed hsb]
  exact ⟨hl.dst_idle hup hsw fun a c hs hm => hq _ _ (.server hs hm),
    hl'.dst_idle hdown hcw fun a c hs hm => hq _ _ (.client hs hm)⟩

theorem tunnel_fifo_and_progress_hi :
    ∃ tr t, (tunnel sampleLib).Run tr t ∧ t.server.writeStream.popped = [hiFrame] ∧
      (t.server.writeStream.popped <+: t.client.readStream.pushed ∧
        t.client.writeStream.popped <+: t.server.readStream.pushed) ∧
      (t.Quiet sampleLib → t.server.writeStream.pushed = t.client.readStream.pushed ∨
        t.server.writeStream.full) := by
  have h0 : (tunnel sampleLib).init _ := .mk (unused_create 1 1) (unused_create 1 1)
  have h1 := (System.Run.start h0).next
    (a := TunnelEvent.client (.push hiFrame)) (.client (.push rfl (by decide)) nofun)
  have h2 := h1.next (a := TunnelEvent.client .fireRead)
    (.client (.fireRead ⟨by decide, .inr (by simp)⟩) nofun)
  have h3 := h2.next (a := TunnelEvent.client .readTask) (.client (.readTask (by decide)) nofun)
  have h4 := h3.next (a := TunnelEvent.server (.wsReceived (.binary hiCbor)))
    (.server (.wsReceived (by decide)) fun m hm => by cases hm; rfl)
  have h5 := h4.next (a := TunnelEvent.server (.pop hiFrame)) (.server (.pop (Eq.refl [_])) nofun)
  have h := tunnel_fifo_and_progress h5
    (fun f hf => by obtain rfl := List.mem_singleton.mp hf; exact sampleLib_inverts) nofun
  exact ⟨_, _, h5, rfl, h.1, fun hq => (h.2 rfl rfl rfl rfl hq).1⟩

/-! The tunnel as two pipes. -/

def WsEvent.pushed : WsEvent → Option Ac.Frame
  | .push f => some f
  | _ => none

def WsEvent.popped : WsEvent → Option Ac.Frame
  | .pop f => some f
  | _ => none

theorem step_pushed (h : WsStep lib src a src') :
    src'.readStream.pushed = src.readStream.pushed ++ a.pushed.toList := by
  cases h with
  | wsReceived => simp [(received_sameOutbound _ _ _).readStream, WsEvent.pushed]
  | writeTask => simp [(tryWrite_sameOutbound _).readStream, WsEvent.pushed]
  | wsCompletedSend | readTask =>
    exact (tryRead_sameInbound _).pushed.trans (List.append_nil _).symm
  | push => rfl
  | fireWrite | fireRead | pop | drop | wsClosed => exact (List.append_nil _).symm

theorem step_popped (h : WsStep lib src a src') :
    src'.writeStream.popped = src.writeStream.popped ++ a.popped.toList := by
  cases h with
  | wsReceived => exact (received_sameOutbound _ _ _).popped.trans (List.append_nil _).symm
  | writeTask => exact (tryWrite_sameOutbound _).popped.trans (List.append_nil _).symm
  | wsCompletedSend => simp [wsCompletedSend, (tryRead_sameInbound _).writeStream, WsEvent.popped]
  | readTask => simp [(tryRead_sameInbound _).writeStream, WsEvent.popped]
  | pop => rfl
  | fireWrite | fireRead | push | drop | wsClosed => exact (List.append_nil _).symm

def Inverts (lib : DictLib) (t : Tunnel) : Prop :=
  (∀ f ∈ t.client.readStream.pushed, CborInverts lib f) ∧
    ∀ f ∈ t.server.readStream.pushed, CborInverts lib f

def cborTunnel (lib : DictLib) : System Tunnel TunnelEvent where
  init t := TunnelOpened lib t ∧ Inverts lib t
  step t e t' := TunnelStep lib t e t' ∧ Inverts lib t'

theorem cborTunnel_run (h : (cborTunnel lib).Run tr t) : (tunnel lib).Run tr t ∧ Inverts lib t := by
  refine ⟨h.mono (M := tunnel lib) (N := cborTunnel lib) (fun _ h => h.1) fun _ _ _ h => h.1, ?_⟩
  cases h with
  | start h => exact h.2
  | next _ h => exact h.2

def WsEvent.observed : WsEvent → Option (PipeEvent Ac.Frame ⊕ PipeEvent Ac.Frame)
  | .push f => some (.inl (.push f))
  | .pop f => some (.inr (.pop f))
  | _ => none

def TunnelEvent.observed : TunnelEvent → Option (PipeEvent Ac.Frame ⊕ PipeEvent Ac.Frame)
  | .client a => a.observed
  | .server a => a.observed.map Sum.swap

structure Carries (t : Tunnel) (q : Pipe Ac.Frame × Pipe Ac.Frame) : Prop where
  up : q.1.pushed = t.client.readStream.pushed ∧ q.1.popped = t.server.writeStream.popped
  down : q.2.pushed = t.server.readStream.pushed ∧ q.2.popped = t.client.writeStream.popped

theorem session_follows {q : Pipe Ac.Frame × Pipe Ac.Frame} (hs : WsStep lib src a src')
    (hpush : q.1.pushed = src.readStream.pushed) (hpop : q.2.popped = src.writeStream.popped)
    (hfifo : src'.writeStream.popped <+: q.2.pushed) :
    (pair Ac.Frame).Follows a.observed q fun q' =>
      (q'.1.pushed = src'.readStream.pushed ∧ q'.1.popped = q.1.popped) ∧
      q'.2.pushed = q.2.pushed ∧ q'.2.popped = src'.writeStream.popped := by
  rw [step_popped hs, ← hpop] at hfifo
  rw [step_pushed hs, step_popped hs, ← hpush, ← hpop]
  cases a with
  | push f =>
    exact ⟨(q.1.push f, q.2), ⟨.push _ _, rfl⟩, ⟨rfl, rfl⟩, rfl, (List.append_nil _).symm⟩
  | pop f =>
    exact ⟨(q.1, q.2.pop f hfifo), ⟨.pop _ hfifo, rfl⟩, ⟨(List.append_nil _).symm, rfl⟩, rfl, rfl⟩
  | _ => exact ⟨⟨(List.append_nil _).symm, rfl⟩, rfl, (List.append_nil _).symm⟩

theorem opened_popped {s : CommonWsSession} (h : WsOpened lib s) : s.writeStream.popped = [] := by
  obtain ⟨target, rs, ws, fresh, rfl⟩ := h.eq
  have hp := ws.popped_prefix
  rw [fresh.pushed] at hp
  rw [(tryRead_sameInbound _).writeStream]
  exact List.prefix_nil.mp hp

def tunnelPipes (lib : DictLib) : Simulation (cborTunnel lib) (pair Ac.Frame) where
  rel _ t q := Carries t q
  obs := TunnelEvent.observed
  start := by
    rintro _ ⟨⟨hc, hs⟩, _⟩
    have hserver : WsOpened lib _ := .server (lit "/cbor") hs
    have hclient : WsOpened lib _ := .client (lit "/cbor") hc
    exact ⟨(⟨_, [], List.nil_prefix⟩, ⟨_, [], List.nil_prefix⟩), ⟨rfl, rfl⟩,
      ⟨rfl, (opened_popped hserver).symm⟩, rfl, (opened_popped hclient).symm⟩
  step := by
    intro tr t e t' q hr hrel hs
    obtain ⟨hrun, hinv⟩ := cborTunnel_run (hr.next hs)
    obtain ⟨hl, hl'⟩ := tunnel_links hrun
    obtain ⟨⟨h1, h2⟩, h3, h4⟩ := hrel
    have hup := hl.fifo hinv.1
    have hdown := hl'.fifo hinv.2
    obtain ⟨hs, _⟩ := hs
    cases hs with
    | client step next =>
      exact (session_follows step h1 h4 (h3 ▸ hdown)).imp
        fun q' ⟨⟨g1, g2⟩, g3, g4⟩ => ⟨⟨g1, g2.trans h2⟩, g3.trans h3, g4⟩
    | server step next =>
      refine pair_swap ((session_follows (q := q.swap) step h3 h2 (h1 ▸ hup)).imp ?_)
      exact fun q' ⟨⟨g1, g2⟩, g3, g4⟩ => ⟨⟨g3.trans h1, g4⟩, g1, g2.trans h4⟩

theorem tunnel_refines_pipes (h : (cborTunnel lib).Run tr t) :
    ∃ q, (pair Ac.Frame).Run (tr.filterMap TunnelEvent.observed) q ∧ Carries t q :=
  (tunnelPipes lib).run h

end Acord
