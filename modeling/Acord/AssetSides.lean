import Acord.AssetTraffic

/-! The two sides of the connections: what the sessions of the asset manager have said, and what
the clients have asked and heard. Neither side disturbs the other. -/

namespace Acord
open Ac Channels RequestLoop Transition

theorem update_rel {α β : Type} [DecidableEq α] {P : β → β → Prop} {f : α → β} {i : α} {c : β}
    (hr : ∀ a, P a a) (h : P (f i) c) (j : α) : P (f j) (Function.update f i c j) := by
  by_cases hj : j = i
  · subst hj
    rw [Function.update_self]
    exact h
  · rw [Function.update_of_ne hj]
    exact hr _

variable {ι : Type} {sch : SchemaLib} {lib : FrameLib} {b c : AssetBackend ι sch}
  {k : ι} {i : Nat} {e : LocalEvent sch} {cap : Nat} {dir : AssetDir} {fs : Fs}

namespace AssetBackend

structure SameService (b c : AssetBackend ι sch) : Prop where
  service : c.service = b.service
  polled : ∀ i, (c.up i).popped = (b.up i).popped
  pushed : ∀ i, (c.down i).pushed = (b.down i).pushed
  upClosed : ∀ i, (b.up i).closed = true → (c.up i).closed = true
  downClosed : ∀ i, (b.down i).closed = true → (c.down i).closed = true

theorem SameService.refl (b : AssetBackend ι sch) : SameService b b :=
  ⟨rfl, fun _ => rfl, fun _ => rfl, fun _ => id, fun _ => id⟩

theorem SameService.trans {a b c : AssetBackend ι sch} (h : SameService a b)
    (h' : SameService b c) : SameService a c where
  service := h'.service.trans h.service
  polled i := (h'.polled i).trans (h.polled i)
  pushed i := (h'.pushed i).trans (h.pushed i)
  upClosed i := h'.upClosed i ∘ h.upClosed i
  downClosed i := h'.downClosed i ∘ h.downClosed i

theorem sameService_setUp (b : AssetBackend ι sch) {c : Channel Ac.Frame}
    (hp : c.popped = (b.up i).popped) (hc : (b.up i).closed = true → c.closed = true) :
    SameService b (b.setUp i c) where
  service := rfl
  polled := update_rel (P := fun a c : Channel Ac.Frame => c.popped = a.popped) (fun _ => rfl) hp
  pushed _ := rfl
  upClosed :=
    update_rel (P := fun a c : Channel Ac.Frame => a.closed = true → c.closed = true) (fun _ => id) hc
  downClosed _ := id

theorem sameService_setDown (b : AssetBackend ι sch) {c : Channel Ac.Frame}
    (hp : c.pushed = (b.down i).pushed) (hc : (b.down i).closed = true → c.closed = true) :
    SameService b (b.setDown i c) where
  service := rfl
  polled _ := rfl
  pushed := update_rel (P := fun a c : Channel Ac.Frame => c.pushed = a.pushed) (fun _ => rfl) hp
  upClosed _ := id
  downClosed :=
    update_rel (P := fun a c : Channel Ac.Frame => a.closed = true → c.closed = true) (fun _ => id) hc

theorem sameService_shut (b : AssetBackend ι sch) (i : Nat) : SameService b (b.shut i) := by
  have hup : SameService b (b.setUp i (b.up i).close) := sameService_setUp b rfl fun _ => rfl
  exact hup.trans (sameService_setDown _ rfl fun _ => rfl)

variable [DecidableEq ι]

theorem sameService_advance (b : AssetBackend ι sch) (k : ι) (e : LocalEvent sch)
    (s : Server localEffects Exn LocalEnv) : SameService b (b.advance k e s) :=
  ⟨rfl, fun _ => rfl, fun _ => rfl, fun _ => id, fun _ => id⟩

theorem sameService_hangUp (b : AssetBackend ι sch) (k : ι) : SameService b (b.hangUp k) := by
  unfold hangUp
  split
  · exact .refl b
  next i _ =>
    obtain ⟨h1, h2, h3, h4, h5⟩ := sameService_shut b i
    exact ⟨h1, h2, h3, h4, h5⟩

end AssetBackend

open AssetBackend
variable [DecidableEq ι]

theorem Dials.sameService (h : Dials sch k b e c) : SameService b c := by
  cases h with
  | connected => exact ⟨rfl, fun _ => rfl, fun _ => rfl, fun _ => id, fun _ => id⟩
  | wrote => exact sameService_setUp _ rfl id
  | read => exact sameService_setDown _ rfl id
  | writeClosed | readClosed | elsewhere => exact .refl _

theorem BackendStep.client_sameService (h : BackendStep lib sch b (.client k e) c) :
    SameService b c := by
  cases h with
  | called _ io => exact io.sameService.trans (sameService_advance _ _ _ _)
  | served _ io =>
    exact (io.sameService.trans (sameService_advance _ _ _ _)).trans (sameService_hangUp _ _)

def Spoken (lib : FrameLib) (G : AssetMgr → Str → Str → Prop) (m : AssetMgr) (cs fs : List Ac.Frame) :
    AssetSession → Prop
  | .greeting => cs = [] ∧ fs = []
  | .polling => ∃ rs, fs = lib.stateChange Amgr.stateId :: rs ∧
      List.Forall₂ (RepliesWith G m) cs rs
  | .replying cmd _ => ∃ cs' rs, cs = cs' ++ [cmd] ∧ fs = lib.stateChange Amgr.stateId :: rs ∧
      List.Forall₂ (RepliesWith G m) cs' rs
  | .closed | .escaped _ => ∃ cs' rs, cs' <+: cs ∧ fs <+: lib.stateChange Amgr.stateId :: rs ∧
      List.Forall₂ (RepliesWith G m) cs' rs

def AssetSession.Over : AssetSession → Prop
  | .closed | .escaped _ => True
  | _ => False

section
variable {P : Str → Outcomes → Prop} {I : AssetMgr → Prop} {K : AssetMgr → AssetMgr → Prop}
  {G : AssetMgr → Str → Str → Prop} {m m' : AssetMgr} {cs fs : List Ac.Frame} {a : AssetSession}

omit [DecidableEq ι] in
theorem Spoken.answered (h : Spoken lib G m cs fs a) : ∃ cs' rs, cs' <+: cs ∧
    fs <+: lib.stateChange Amgr.stateId :: rs ∧ List.Forall₂ (RepliesWith G m) cs' rs := by
  cases a with
  | greeting =>
    obtain ⟨rfl, rfl⟩ := h
    exact ⟨[], [], List.prefix_rfl, List.nil_prefix, .nil⟩
  | polling =>
    obtain ⟨rs, rfl, hr⟩ := h
    exact ⟨cs, rs, List.prefix_rfl, List.prefix_rfl, hr⟩
  | replying cmd reply =>
    obtain ⟨cs', rs, rfl, rfl, hr⟩ := h
    exact ⟨cs', rs, List.prefix_append _ _, List.prefix_rfl, hr⟩
  | closed | escaped => exact h

theorem Spoken.later (R : UrlRule P I K G) (hk : K m m') (h : Spoken lib G m cs fs a) :
    Spoken lib G m' cs fs a := by
  have hlater : ∀ {cs rs}, List.Forall₂ (RepliesWith G m) cs rs →
      List.Forall₂ (RepliesWith G m') cs rs := fun hr => hr.imp fun _ _ => R.replies_stable hk
  cases a with
  | greeting => exact h
  | polling =>
    obtain ⟨rs, hf, hr⟩ := h
    exact ⟨rs, hf, hlater hr⟩
  | replying cmd reply =>
    obtain ⟨cs', rs, hc, hf, hr⟩ := h
    exact ⟨cs', rs, hc, hf, hlater hr⟩
  | closed | escaped =>
    obtain ⟨cs', rs, hc, hf, hr⟩ := h
    exact ⟨cs', rs, hc, hf, hlater hr⟩

structure ServiceSide (lib : FrameLib) (I : AssetMgr → Prop) (G : AssetMgr → Str → Str → Prop)
    (b : AssetBackend ι sch) : Prop where
  -- the service side of the connections: each session has said what its place in its loop says,
  -- one that is over has left its streams, and no one has dialled those to come
  service : ServiceInv I G b.service
  spoken : ∀ i, Spoken lib G b.service.mgr (b.up i).popped (b.down i).pushed (b.service.sessions i)
  closed : ∀ i, (b.service.sessions i).Over → (b.up i).closed = true ∧ (b.down i).closed = true

omit [DecidableEq ι] in
theorem ServiceSide.client (h : ServiceSide lib I G b) (hs : SameService b c) :
    ServiceSide lib I G c := by
  obtain ⟨h1, h2, h3, h4, h5⟩ := hs
  refine ⟨h1 ▸ h.service, fun i => ?_, fun i hi => ?_⟩
  · rw [h1, h2 i, h3 i]
    exact h.spoken i
  · rw [h1] at hi
    exact (h.closed i hi).imp (h4 i) (h5 i)

omit [DecidableEq ι] in
theorem ServiceSide.moved (R : UrlRule P I K G) (h : ServiceSide lib I G b)
    (hs : ServiceInv I G c.service) (hk : K b.service.mgr c.service.mgr)
    (hother : ∀ j, j ≠ i → c.service.sessions j = b.service.sessions j ∧
      c.up j = b.up j ∧ c.down j = b.down j)
    (hc : (c.up i).popped = cs) (hf : (c.down i).pushed = fs) (ha : c.service.sessions i = a)
    (hsp : Spoken lib G c.service.mgr cs fs a)
    (hov : a.Over → (c.up i).closed = true ∧ (c.down i).closed = true) :
    ServiceSide lib I G c := by
  subst hc hf ha
  refine ⟨hs, fun j => ?_, fun j hj => ?_⟩
  · by_cases hji : j = i
    · exact hji ▸ hsp
    · obtain ⟨h1, h2, h3⟩ := hother j hji
      rw [h1, h2, h3]
      exact (h.spoken j).later R hk
  · by_cases hji : j = i
    · subst hji
      exact hov hj
    · obtain ⟨h1, h2, h3⟩ := hother j hji
      rw [h1] at hj
      rw [h2, h3]
      exact h.closed j hj

theorem after_over {cmd : Ac.Frame} {r : Except Exn Ac.Frame}
    (h : ∀ reply, AssetSession.after cmd r ≠ .replying cmd reply) :
    (AssetSession.after cmd r).Over := by
  cases r with
  | ok f => exact absurd rfl (h f)
  | error x => cases x <;> trivial

theorem Spoken.leave (h : Spoken lib G m cs fs a) {cs' : List Ac.Frame} {a' : AssetSession}
    (hc : cs <+: cs') (ha : a'.Over) : Spoken lib G m cs' fs a' := by
  -- a session that is over has said no less than one that goes on
  obtain ⟨ds, rs, hd, hf, hr⟩ := h.answered
  cases a' with
  | closed | escaped => exact ⟨ds, rs, hd.trans hc, hf, hr⟩
  | greeting | polling | replying => exact ha.elim

theorem ServiceSide.step {a : AssetEvent} (R : UrlRule P I K G) (h : ServiceSide lib I G b)
    (hp : PolledWith P b.service a) (hs : BackendStep lib sch b (.service a) c) :
    ServiceSide lib I G c := by
  have hput : ∀ {u : AssetService} {i j : Nat} {s : AssetSession}, j ≠ i →
      (u.put i s).sessions j = u.sessions j := AssetService.put_other
  have hne : ∀ {f : Nat → Channel Ac.Frame} {i j : Nat} {ch : Channel Ac.Frame}, j ≠ i →
      Function.update f i ch j = f j := fun hj => Function.update_of_ne hj _ _
  have heq : ∀ {f : Nat → Channel Ac.Frame} {i : Nat} {ch : Channel Ac.Frame},
      Function.update f i ch i = ch := Function.update_self _ _ _
  cases hs with
  | @pushed i f s step dialled live room =>
    obtain ⟨hsrv, hk⟩ := R.step h.service hp step
    have hspoken := h.spoken i
    cases step with
    | greeted due =>
      rw [due] at hspoken
      obtain ⟨hcs, hfs⟩ := hspoken
      refine h.moved R hsrv hk (fun j hj => ⟨hput hj, rfl, hne hj⟩) hcs
        (congrArg Channel.pushed heq) (AssetService.put_same _ _ _) ?_ False.elim
      exact ⟨[], by simp [hfs], .nil⟩
    | @replied _ cmd _ due =>
      rw [due] at hspoken
      obtain ⟨cs, rs, hcs, hfs, hr⟩ := hspoken
      refine h.moved R hsrv hk (fun j hj => ⟨hput hj, rfl, hne hj⟩) hcs
        (congrArg Channel.pushed heq) (AssetService.put_same _ _ _) ?_ False.elim
      have hgood : RepliesWith G b.service.mgr cmd f := h.service.replies i cmd f due
      exact ⟨rs ++ [f], by simp [hfs], List.rel_append hr (.cons hgood .nil)⟩
  | @polled i cmd reply rest os s step dialled due ok =>
    obtain ⟨hsrv, hk⟩ := R.step h.service hp step
    have hspoken := (h.spoken i).later R hk
    cases step with
    | polled hpoll =>
      rw [hpoll] at hspoken
      obtain ⟨rs, hfs, hr⟩ := hspoken
      exact h.moved R hsrv hk (fun j hj => ⟨hput hj, hne hj, rfl⟩) (congrArg Channel.popped heq)
        hfs ok ⟨_, rs, rfl, rfl, hr⟩ False.elim
  | @failed i cmd rest os s step dialled due ko =>
    obtain ⟨hsrv, hk⟩ := R.step h.service hp step
    have hspoken := (h.spoken i).later R hk
    cases step with
    | polled hpoll =>
      have hnow := AssetService.put_same { b.service with mgr := (runCommand lib b.service.mgr cmd os).2 }
        i (.after cmd (runCommand lib b.service.mgr cmd os).1)
      have hover := after_over (hnow ▸ ko)
      exact h.moved R hsrv hk (fun j hj => ⟨hput hj, (hne hj).trans (hne hj), hne hj⟩)
        (((sameService_shut _ i).polled i).trans (congrArg Channel.popped heq))
        ((sameService_shut _ i).pushed i) hnow (hspoken.leave (List.prefix_append _ [cmd]) hover)
        fun _ => ⟨congrArg Channel.closed heq, congrArg Channel.closed heq⟩
  | @closed i s step dialled found =>
    obtain ⟨hsrv, hk⟩ := R.step h.service hp step
    have hspoken := h.spoken i
    cases step with
    | closed due =>
      exact h.moved R hsrv hk (fun j hj => ⟨hput hj, hne hj, hne hj⟩) (congrArg Channel.popped heq)
        (congrArg Channel.pushed heq) (AssetService.put_same _ _ _) (hspoken.leave List.prefix_rfl trivial)
        fun _ => ⟨congrArg Channel.closed heq, congrArg Channel.closed heq⟩

end

structure ClientSide (b : AssetBackend ι sch) : Prop where
  -- what a client has said to the session it is connected to, and heard from it, are the calls of
  -- the handler at work; no two are connected to one session
  run : ∀ k, (localSession sch).Run (b.log k) (b.coro k)
  own : ∀ k k' i, b.conn k = some i → b.conn k' = some i → k = k'
  dialled : ∀ k i, b.conn k = some i → i < b.sessions
  fresh : ∀ i, b.sessions ≤ i → (b.up i).pushed = [] ∧ (b.down i).popped = []
  traffic : ∀ k i, b.conn k = some i → ∀ pre r mid, LastAt Event.isRequest (b.log k) pre r mid →
    (b.up i).pushed = aioSent mid ∧ (b.down i).popped = aioGot mid

def Busy (b : AssetBackend ι sch) : Prop := ∀ k i, b.conn k = some i → ¬ (b.coro k).prog.Ended

theorem BackendStep.service_same {a : AssetEvent} (hs : BackendStep lib sch b (.service a) c) :
    (c.coro = b.coro ∧ c.log = b.log ∧ c.conn = b.conn ∧ c.sessions = b.sessions) ∧
    ∀ i, (c.up i).pushed = (b.up i).pushed ∧ (c.down i).popped = (b.down i).popped := by
  have hup : ∀ {f : Nat → Channel Ac.Frame} {i : Nat} {ch : Channel Ac.Frame},
      ch.pushed = (f i).pushed → ∀ j, (Function.update f i ch j).pushed = (f j).pushed :=
    fun h => update_rel (P := fun a c : Channel Ac.Frame => c.pushed = a.pushed) (fun _ => rfl) h
  have hdown : ∀ {f : Nat → Channel Ac.Frame} {i : Nat} {ch : Channel Ac.Frame},
      ch.popped = (f i).popped → ∀ j, (Function.update f i ch j).popped = (f j).popped :=
    fun h => update_rel (P := fun a c : Channel Ac.Frame => c.popped = a.popped) (fun _ => rfl) h
  cases hs with
  | pushed => exact ⟨⟨rfl, rfl, rfl, rfl⟩, fun j => ⟨rfl, hdown (by rfl) j⟩⟩
  | polled => exact ⟨⟨rfl, rfl, rfl, rfl⟩, fun j => ⟨hup (by rfl) j, rfl⟩⟩
  | failed =>
    exact ⟨⟨rfl, rfl, rfl, rfl⟩, fun j => ⟨(hup (by rfl) j).trans (hup (by rfl) j),
      hdown (by rfl) j⟩⟩
  | closed => exact ⟨⟨rfl, rfl, rfl, rfl⟩, fun j => ⟨hup (by rfl) j, hdown (by rfl) j⟩⟩

theorem ClientSide.service {a : AssetEvent} (h : ClientSide b)
    (hs : BackendStep lib sch b (.service a) c) : ClientSide c := by
  obtain ⟨⟨h1, h2, h3, h4⟩, hch⟩ := hs.service_same
  refine ⟨fun k => ?_, fun k k' i => ?_, fun k i => ?_, fun i => ?_, fun k i => ?_⟩
  · rw [h1, h2]
    exact h.run k
  · rw [h3]
    exact h.own k k' i
  · rw [h3, h4]
    exact h.dialled k i
  · rw [h4, (hch i).1, (hch i).2]
    exact h.fresh i
  · rw [h2, h3, (hch i).1, (hch i).2]
    exact h.traffic k i

theorem last_call {log : List (LocalEvent sch)} {pre mid : List (LocalEvent sch)}
    {r : LocalEvent sch} (h : LastAt Event.isRequest (log ++ [e]) pre r mid) (he : ¬ e.isRequest) :
    ∃ mid', mid = mid' ++ [e] ∧ LastAt Event.isRequest log pre r mid' := by
  rcases h.snoc with ⟨_, rfl, _⟩ | ⟨mid', hm, hl, _⟩
  · exact absurd h.hit he
  · exact ⟨mid', hm, hl⟩

theorem last_handler {log : List (LocalEvent sch)} {s : Server localEffects Exn LocalEnv}
    {pre mid : List (LocalEvent sch)} {r : LocalEvent sch} (h : (localSession sch).Run log s)
    (hl : LastAt Event.isRequest log pre r mid) : ∃ p, r = .request p ∧
      ((∃ f us, p = .frame f ∧ f.op = Schema.opMakeAssetsAvailable ∧ sch.urls f.data = .ok us ∧
        Asking us mid s.prog) ∨ Apart s.prog ∧ ∀ op r, Event.call op r ∈ mid → ¬ op.Aio) := by
  cases r with
  | call op r => exact hl.hit.elim
  | request p =>
    obtain ⟨w, _, he⟩ := Loop.run_handler h hl
    exact ⟨p, rfl, serve_asking he⟩

theorem Dials.same (io : Dials sch k b e c) : c.coro = b.coro ∧ c.log = b.log := by
  cases io <;> exact ⟨rfl, rfl⟩

theorem Dials.moves (io : Dials sch k b e c) :
    (∃ id, e = .call (.connect id) (Except.ok ()) ∧ c = b.dial k) ∨
    (c.conn = b.conn ∧ c.sessions = b.sessions ∧
      (∀ i, b.conn k = some i → (c.up i).pushed = (b.up i).pushed ++ (aioFrame e).toList ∧
        (c.down i).popped = (b.down i).popped ++ (amgrFrame e).toList) ∧
      ∀ i, b.conn k ≠ some i → c.up i = b.up i ∧ c.down i = b.down i) := by
  have hnil : ∀ l : List Ac.Frame, l = l ++ [] := fun l => (List.append_nil l).symm
  cases io with
  | connected => exact .inl ⟨_, rfl, rfl⟩
  | @wrote i f own =>
    have hi : (b.setUp i ((b.up i).push f)).up i = (b.up i).push f := Function.update_self _ _ _
    refine .inr ⟨rfl, rfl, fun j hj => ?_, fun j hj => ⟨?_, rfl⟩⟩
    · obtain rfl : i = j := Option.some.inj (own.symm.trans hj)
      exact ⟨congrArg Channel.pushed hi, hnil _⟩
    · have hji : j ≠ i := fun hji => hj (hji ▸ own)
      exact Function.update_of_ne hji _ _
  | @read i f rest own due =>
    have hi : (b.setDown i ((b.down i).pop f rest due)).down i = (b.down i).pop f rest due :=
      Function.update_self _ _ _
    refine .inr ⟨rfl, rfl, fun j hj => ?_, fun j hj => ⟨rfl, ?_⟩⟩
    · obtain rfl : i = j := Option.some.inj (own.symm.trans hj)
      exact ⟨hnil _, congrArg Channel.popped hi⟩
    · have hji : j ≠ i := fun hji => hj (hji ▸ own)
      exact Function.update_of_ne hji _ _
  | writeClosed | readClosed =>
    exact .inr ⟨rfl, rfl, fun _ _ => ⟨hnil _, hnil _⟩, fun _ _ => ⟨rfl, rfl⟩⟩
  | elsewhere apart =>
    have hsent : aioFrame e = none := by
      cases e with
      | request p => rfl
      | call op r => cases op <;> first | rfl | exact apart.elim
    have hgot : amgrFrame e = none := by
      cases e with
      | request p => rfl
      | call op r => cases op <;> first | rfl | exact apart.elim
    rw [hsent, hgot]
    exact .inr ⟨rfl, rfl, fun _ _ => ⟨hnil _, hnil _⟩, fun _ _ => ⟨rfl, rfl⟩⟩

theorem ClientSide.call {s : Server localEffects Exn LocalEnv} (h : ClientSide b) (hb : Busy b)
    (run : (localSession sch).step (b.coro k) e s) (io : Dials sch k b e c) :
    ClientSide (c.advance k e s) := by
  obtain ⟨hcoro, hlog⟩ := io.same
  have hmine : (c.advance k e s).log k = b.log k ++ [e] := by
    show Function.update c.log k (c.log k ++ [e]) k = _
    rw [Function.update_self, hlog]
  have hother : ∀ k', k' ≠ k → (c.advance k e s).log k' = b.log k' := by
    intro k' hk
    show Function.update c.log k (c.log k ++ [e]) k' = _
    rw [Function.update_of_ne hk, hlog]
  have hrun : ∀ k', (localSession sch).Run ((c.advance k e s).log k')
      ((c.advance k e s).coro k') := by
    intro k'
    show (localSession sch).Run _ (Function.update c.coro k s k')
    by_cases hk : k' = k
    · subst hk
      rw [hmine, Function.update_self]
      exact (h.run k').next run
    · rw [hother k' hk, Function.update_of_ne hk, hcoro]
      exact h.run k'
  rcases io.moves with ⟨_, rfl, rfl⟩ | ⟨hconn, hsess, hkept, hrest⟩
  · have hnew : (b.dial k).conn k = some b.sessions := Function.update_self _ _ _
    have hold : ∀ k', k' ≠ k → (b.dial k).conn k' = b.conn k' :=
      fun k' hk => Function.update_of_ne hk _ _
    have hless : ∀ k' i, k' ≠ k → (b.dial k).conn k' = some i → i ≠ b.sessions := by
      intro k' i hk hi
      exact Nat.ne_of_lt (h.dialled k' i (hold k' hk ▸ hi))
    refine ⟨hrun, fun k₁ k₂ i h1 h2 => ?_, fun k' i hi => ?_, fun i hi => ?_, fun k' i hi => ?_⟩
    · by_cases hk1 : k₁ = k
      · by_cases hk2 : k₂ = k
        · rw [hk1, hk2]
        · subst hk1
          exact absurd (Option.some.inj (hnew.symm.trans h1)).symm (hless k₂ i hk2 h2)
      · by_cases hk2 : k₂ = k
        · subst hk2
          exact absurd (Option.some.inj (hnew.symm.trans h2)).symm (hless k₁ i hk1 h1)
        · exact h.own k₁ k₂ i (hold k₁ hk1 ▸ h1) (hold k₂ hk2 ▸ h2)
    · by_cases hk : k' = k
      · subst hk
        exact Option.some.inj (hnew.symm.trans hi) ▸ Nat.lt_succ_self _
      · exact Nat.lt_succ_of_lt (h.dialled k' i (hold k' hk ▸ hi))
    · exact h.fresh i (Nat.le_of_succ_le hi)
    · intro pre r mid hl
      by_cases hk : k' = k
      · subst hk
        obtain rfl : b.sessions = i := Option.some.inj (hnew.symm.trans hi)
        rw [hmine] at hl
        obtain ⟨mid', rfl, hl'⟩ := last_call hl id
        obtain ⟨hup, hdown⟩ := h.fresh b.sessions (Nat.le_refl _)
        -- a handler dials before anything else
        have hfirst : mid' = [] := by
          obtain ⟨_, _, hask⟩ := last_handler (h.run k') hl'
          generalize b.coro k' = t at run hask
          cases run
          rcases hask with ⟨_, _, _, _, _, hask⟩ | ⟨hapart, _⟩
          · exact hask.dials _ _ rfl
          · exact absurd trivial hapart.1
        subst hfirst
        exact ⟨hup, hdown⟩
      · rw [hother k' hk] at hl
        exact h.traffic k' i (hold k' hk ▸ hi) pre r mid hl
  · refine ⟨hrun, fun k₁ k₂ i h1 h2 => ?_, fun k' i hi => ?_, fun i hi => ?_, fun k' i hi => ?_⟩
    · exact h.own k₁ k₂ i (hconn ▸ h1) (hconn ▸ h2)
    · exact Nat.lt_of_lt_of_eq (h.dialled k' i (hconn ▸ hi)) hsess.symm
    · have hle : b.sessions ≤ i := hsess.symm.trans_le hi
      have hfree : b.conn k ≠ some i := fun hk => Nat.not_lt.mpr hle (h.dialled k i hk)
      obtain ⟨hup, hdown⟩ := hrest i hfree
      exact hup ▸ hdown ▸ h.fresh i hle
    · intro pre r mid hl
      have hi' : b.conn k' = some i := hconn ▸ hi
      by_cases hk : k' = k
      · subst hk
        rw [hmine] at hl
        have hcall : ¬ e.isRequest := by
          have hbusy := hb k' i hi'
          generalize b.coro k' = t at run hbusy
          cases run with
          | request => exact absurd trivial hbusy
          | call => exact id
        obtain ⟨mid', rfl, hl'⟩ := last_call hl hcall
        obtain ⟨hup, hdown⟩ := hkept i hi'
        obtain ⟨hsent, hgot⟩ := h.traffic k' i hi' pre r mid' hl'
        have hsent' : (c.up i).pushed = aioSent (mid' ++ [e]) := by
          rw [hup, hsent]
          exact (filterMap_snoc aioFrame mid' e).symm
        have hgot' : (c.down i).popped = aioGot (mid' ++ [e]) := by
          rw [hdown, hgot]
          exact (filterMap_snoc amgrFrame mid' e).symm
        exact ⟨hsent', hgot'⟩
      · rw [hother k' hk] at hl
        have hfree : b.conn k ≠ some i := fun hki => hk (h.own k k' i hki hi').symm
        obtain ⟨hup, hdown⟩ := hrest i hfree
        have htraffic := h.traffic k' i hi' pre r mid hl
        rw [← hup, ← hdown] at htraffic
        exact htraffic

theorem hangUp_fields (b : AssetBackend ι sch) (k : ι) :
    ((b.hangUp k).coro = b.coro ∧ (b.hangUp k).log = b.log ∧ (b.hangUp k).sessions = b.sessions) ∧
    (b.hangUp k).conn = Function.update b.conn k none ∧
    ∀ i, ((b.hangUp k).up i).pushed = (b.up i).pushed ∧
      ((b.hangUp k).down i).popped = (b.down i).popped := by
  unfold hangUp
  split
  next hn =>
    have hsame : b.conn = Function.update b.conn k none := by
      rw [← hn, Function.update_eq_self]
    exact ⟨⟨rfl, rfl, rfl⟩, hsame, fun _ => ⟨rfl, rfl⟩⟩
  next i hi =>
    refine ⟨⟨rfl, rfl, rfl⟩, rfl, fun j => ⟨?_, ?_⟩⟩
    · exact update_rel (P := fun a c : Channel Ac.Frame => c.pushed = a.pushed) (fun _ => rfl)
        (by rfl) j
    · exact update_rel (P := fun a c : Channel Ac.Frame => c.popped = a.popped) (fun _ => rfl)
        (by rfl) j

theorem ClientSide.hangUp (h : ClientSide b) (k : ι) : ClientSide (b.hangUp k) := by
  obtain ⟨⟨h1, h2, h4⟩, h3, hch⟩ := hangUp_fields b k
  have hsub : ∀ k' i, (b.hangUp k).conn k' = some i → b.conn k' = some i := by
    intro k' i hi
    rw [h3] at hi
    by_cases hk : k' = k
    · subst hk
      rw [Function.update_self] at hi
      cases hi
    · rwa [Function.update_of_ne hk] at hi
  refine ⟨fun k => ?_, fun k k' i hi hi' => ?_, fun k i hi => ?_, fun i => ?_, fun k i hi => ?_⟩
  · rw [h1, h2]
    exact h.run k
  · exact h.own k k' i (hsub k i hi) (hsub k' i hi')
  · rw [h4]
    exact h.dialled k i (hsub k i hi)
  · rw [h4, (hch i).1, (hch i).2]
    exact h.fresh i
  · rw [h2, (hch i).1, (hch i).2]
    exact h.traffic k i (hsub k i hi)

theorem Busy.step {a : BackendEvent ι sch} (h : Busy b) (hs : BackendStep lib sch b a c) :
    Busy c := by
  cases a with
  | service a =>
    obtain ⟨⟨h1, _, h3, _⟩, _⟩ := hs.service_same
    intro k i hi
    rw [h1]
    exact h k i (h3 ▸ hi)
  | client k e =>
    have hother : ∀ {c : AssetBackend ι sch} {k' i} (s : Server localEffects Exn LocalEnv),
        Dials sch k b e c → k' ≠ k → c.conn k' = some i →
          ¬ ((c.advance k e s).coro k').prog.Ended := by
      intro c k' i s io hk hi
      have hcoro : (c.advance k e s).coro k' = b.coro k' := by
        show Function.update c.coro k s k' = _
        rw [Function.update_of_ne hk, io.same.1]
      rw [hcoro]
      rcases io.moves with ⟨_, _, rfl⟩ | ⟨hconn, _⟩
      · exact h k' i ((Function.update_of_ne hk _ _).symm.trans hi)
      · exact h k' i (hconn ▸ hi)
    cases hs with
    | @called c _ _ s run io on =>
      intro k' i hi
      by_cases hk : k' = k
      · subst hk
        show ¬ (Function.update c.coro k' s k').prog.Ended
        rwa [Function.update_self]
      · exact hother s io hk hi
    | @served c _ _ s run io through =>
      intro k' i hi
      obtain ⟨⟨h1, _, _⟩, h3, _⟩ := hangUp_fields (c.advance k e s) k
      rw [h1]
      rw [h3] at hi
      by_cases hk : k' = k
      · subst hk
        rw [Function.update_self] at hi
        cases hi
      · rw [Function.update_of_ne hk] at hi
        exact hother s io hk hi

theorem BackendStep.client_log (hs : BackendStep lib sch b (.client k e) c) :
    ∃ c' s, (localSession sch).step (b.coro k) e s ∧ Dials sch k b e c' ∧
      c.coro = Function.update b.coro k s ∧ c.log = Function.update b.log k (b.log k ++ [e]) := by
  have hadvance : ∀ {c : AssetBackend ι sch} {s}, Dials sch k b e c →
      (c.advance k e s).coro = Function.update b.coro k s ∧
        (c.advance k e s).log = Function.update b.log k (b.log k ++ [e]) := by
    intro c s io
    obtain ⟨hcoro, hlog⟩ := io.same
    unfold advance
    rw [hcoro, hlog]
    exact ⟨rfl, rfl⟩
  cases hs with
  | @called c _ _ s run io on => exact ⟨c, s, run, io, hadvance io⟩
  | @served c _ _ s run io through =>
    obtain ⟨⟨h1, h2, _⟩, _⟩ := hangUp_fields (c.advance k e s) k
    rw [h1, h2]
    exact ⟨c, s, run, io, hadvance io⟩

theorem ClientSide.step {a : BackendEvent ι sch} (h : ClientSide b) (hb : Busy b)
    (hs : BackendStep lib sch b a c) : ClientSide c := by
  cases a with
  | service a => exact h.service hs
  | client k e =>
    cases hs with
    | called run io => exact h.call hb run io
    | served run io => exact (h.call hb run io).hangUp k

end Acord
