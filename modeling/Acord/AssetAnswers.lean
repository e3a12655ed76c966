import Acord.AssetSides
import Acord.AssetConfined
import Acord.AssetOutside

/-! Who gets which answer: every client is told the paths of its own URLs, in order, whatever the
other clients ask for and whenever they hang up; and no request waits for ever. -/

namespace Acord
open Ac Channels RequestLoop Transition AssetBackend

variable {ι : Type} [DecidableEq ι] {sch : SchemaLib} {lib : FrameLib} {b c : AssetBackend ι sch}
  {k : ι} {i : Nat} {e : LocalEvent sch} {cap : Nat} {dir : AssetDir} {fs : Fs}

section
variable {P : Str → Outcomes → Prop} {I : AssetMgr → Prop} {K : AssetMgr → AssetMgr → Prop}
  {G : AssetMgr → Str → Str → Prop} {m m' : AssetMgr} {log : List (LocalEvent sch)}

/-- Each request for assets whose handler was answered by the asset manager was answered by a path
for each of its own URLs, in order. -/
def RightAnswers (G : AssetMgr → Str → Str → Prop) (m : AssetMgr) (log : List (LocalEvent sch)) :
    Prop :=
  ∀ pre f mid post, log = pre ++ .request (Polled.frame f) :: (mid ++ post) →
    (∀ e ∈ mid, ¬ e.isRequest) → f.op = Schema.opMakeAssetsAvailable →
    ∀ us g, sch.urls f.data = .ok us → amgrReply mid = some g →
      ∃ paths, g = assetsFrame paths ∧ List.Forall₂ (G m) us paths

omit [DecidableEq ι] in
theorem read_answer (hcs : ClientSide b) (hss : ServiceSide lib I G b)
    {pre mid : List (LocalEvent sch)} {f g : Ac.Frame} {us : List Str} {rest : List Ac.Frame}
    {s : Server localEffects Exn LocalEnv}
    (hl : LastAt Event.isRequest (b.log k) pre (.request (Polled.frame f)) mid)
    (run : (localSession sch).step (b.coro k) (.call .aioPoll (Polled.frame g)) s)
    (own : b.conn k = some i) (due : (b.down i).buf = g :: rest)
    (hu : sch.urls f.data = .ok us) {g' : Ac.Frame} (hsecond : (aioGot mid ++ [g])[1]? = some g') :
    ∃ paths, g' = assetsFrame paths ∧ List.Forall₂ (G b.service.mgr) us paths := by
  -- the answer a handler has just read is one for the URLs of its own request: the session it is
  -- connected to was asked for nothing else, and answers what it was asked
  obtain ⟨hsent, hgot⟩ := hcs.traffic k i own pre _ mid hl
  obtain ⟨p, hp, hask⟩ := last_handler (hcs.run k) hl
  obtain rfl : Polled.frame f = p := Event.request.inj hp
  generalize b.coro k = t at run hask
  cases run
  rcases hask with ⟨_, us', hf, _, hu', hask⟩ | ⟨hapart, _⟩
  · cases hf
    obtain rfl : us = us' := Except.ok.inj (hu.symm.trans hu')
    rcases hask.reads _ rfl with ⟨_, hnone⟩ | ⟨hasked, hone⟩
    · rw [hnone] at hsecond
      cases hsecond
    · obtain ⟨state, hstate⟩ := List.length_eq_one_iff.mp hone
      obtain rfl : g = g' := by simpa [hstate] using hsecond
      -- the session has said its state and then `g`, its answer to the one request there is
      have hsaid : (b.down i).pushed = state :: g :: rest := by
        rw [(b.down i).ledger, hgot, hstate, due]
        rfl
      obtain ⟨cs, rs, hcs', hrs, hfor⟩ := (hss.spoken i).answered
      rw [hsaid] at hrs
      obtain ⟨_, hrs⟩ := List.cons_prefix_cons.mp hrs
      have hcmd : cs <+: [urlsRequest us] := by
        have hasked : (b.up i).pushed = [urlsRequest us] := hsent.trans hasked
        have hpopped := Channel.popped_prefix (b.up i)
        exact hcs'.trans (hasked ▸ hpopped)
      cases hfor with
      | nil => exact absurd (List.prefix_nil.mp hrs) nofun
      | cons hgood _ =>
        obtain ⟨rfl, _⟩ := List.cons_prefix_cons.mp hrs
        obtain ⟨rfl, _⟩ := List.cons_prefix_cons.mp hcmd
        exact hgood us rfl rfl
  · exact absurd trivial hapart.1

theorem RightAnswers.later (R : UrlRule P I K G) (hk : K m m') (h : RightAnswers G m log) :
    RightAnswers G m' log := by
  intro pre f mid post hlog hmid hop us g hu hg
  obtain ⟨paths, hp, hfor⟩ := h pre f mid post hlog hmid hop us g hu hg
  exact ⟨paths, hp, hfor.imp fun _ _ => R.stable hk⟩

theorem amgrReply_call {mid : List (LocalEvent sch)} (h : amgrFrame e = none) :
    amgrReply (mid ++ [e]) = amgrReply mid := by
  unfold amgrReply
  rw [filterMap_snoc, h, Option.toList_none, List.append_nil]

theorem RightAnswers.call {s : Server localEffects Exn LocalEnv} (h : RightAnswers G b.service.mgr
    (b.log k)) (hcs : ClientSide b) (hss : ServiceSide lib I G b)
    (run : (localSession sch).step (b.coro k) e s) (io : Dials sch k b e c) :
    RightAnswers G b.service.mgr (b.log k ++ [e]) := by
  intro pre f mid post hlog hmid hop us g hu hg
  rcases List.eq_nil_or_concat post with rfl | ⟨post, e', rfl⟩
  · rw [List.append_nil] at hlog
    have hl : LastAt Event.isRequest (b.log k ++ [e]) pre (.request (Polled.frame f)) mid :=
      ⟨hlog, trivial, hmid⟩
    rcases hl.snoc with ⟨rfl, _, _⟩ | ⟨mid, rfl, hl', _⟩
    · cases hg
    · cases hframe : amgrFrame e with
      | none =>
        rw [amgrReply_call hframe] at hg
        exact h pre f mid [] ((List.append_nil mid).symm ▸ hl'.split) hl'.quiet hop us g hu hg
      | some g' =>
        have hread : e = .call .aioPoll (Polled.frame g') := by
          cases e with
          | request p => cases hframe
          | call op r =>
            cases op with
            | aioPoll => cases r <;> cases hframe; rfl
            | _ => cases hframe
        subst hread
        cases io with
        | read own due =>
          have hsecond : (aioGot mid ++ [g'])[1]? = some g := by
            have hgot : aioGot (mid ++ [.call .aioPoll (Polled.frame g')]) = aioGot mid ++ [g'] :=
              filterMap_snoc _ _ _
            rw [← hgot]
            exact hg
          exact read_answer hcs hss hl' run own due hu hsecond
        | elsewhere apart => exact apart.elim
  · rw [List.concat_eq_append] at hlog
    have hsplit : b.log k ++ [e] = (pre ++ .request (Polled.frame f) :: (mid ++ post)) ++ [e'] := by
      rw [hlog]
      simp
    exact h pre f mid post (List.append_inj' hsplit rfl).1 hmid hop us g hu hg

structure BackendInv (lib : FrameLib) (I : AssetMgr → Prop) (G : AssetMgr → Str → Str → Prop)
    (b : AssetBackend ι sch) : Prop where
  clients : ClientSide b
  busy : Busy b
  service : ServiceSide lib I G b
  answers : ∀ k, RightAnswers G b.service.mgr (b.log k)

def ServedWith (P : Str → Outcomes → Prop) (b : AssetBackend ι sch) : BackendEvent ι sch → Prop
  | .service a => PolledWith P b.service a
  | .client _ _ => True

omit [DecidableEq ι] in
theorem servedWith_any (b : AssetBackend ι sch) (a : BackendEvent ι sch) :
    ServedWith AnyOutcomes b a := by
  cases a with
  | client => trivial
  | service a => exact polledWith_any b.service a

theorem BackendInv.step {a : BackendEvent ι sch} (R : UrlRule P I K G) (h : BackendInv lib I G b)
    (hp : ServedWith P b a) (hs : BackendStep lib sch b a c) : BackendInv lib I G c := by
  refine ⟨h.clients.step h.busy hs, h.busy.step hs, ?_, fun k => ?_⟩
  · cases a with
    | service a => exact h.service.step R hp hs
    | client k e => exact h.service.client hs.client_sameService
  · cases a with
    | service a =>
      obtain ⟨⟨_, h2, _, _⟩, _⟩ := hs.service_same
      have hpolled : PolledWith P b.service a := hp
      have hk : K b.service.mgr c.service.mgr := by
        cases hs with
        | pushed step | polled step | failed step | closed step =>
          exact (R.step h.service.service hpolled step).2
      rw [h2]
      exact (h.answers k).later R hk
    | client k' e =>
      rw [hs.client_sameService.service]
      obtain ⟨c', s, run, io, _, hlog⟩ := hs.client_log
      rw [hlog]
      by_cases hk : k = k'
      · subst hk
        rw [Function.update_self]
        exact (h.answers k).call h.clients h.service run io
      · rw [Function.update_of_ne hk]
        exact h.answers k

theorem BackendInv.start (h0 : I (.construct dir fs))
    (h : (assetBackend ι lib sch cap dir fs).init b) : BackendInv lib I G b := by
  obtain rfl := h
  refine ⟨⟨fun k => .start rfl, fun k k' i hi => ?_, fun k i hi => ?_, fun i _ => ⟨rfl, rfl⟩,
    fun k i hi => ?_⟩, fun k i hi => ?_, ⟨⟨h0, fun i cmd reply hr => ?_⟩, fun i => ⟨rfl, rfl⟩,
    fun i => False.elim⟩, fun k pre f mid post hlog => ?_⟩
  · cases hi
  · cases hi
  · cases hi
  · cases hi
  · cases hr
  · exact absurd hlog (by simp)

theorem backend_inv {tr : List (BackendEvent ι sch)} (R : UrlRule P I K G)
    (h0 : I (.construct dir fs))
    (h : ((assetBackend ι lib sch cap dir fs).guard (ServedWith P)).Run tr b) :
    BackendInv lib I G b := by
  refine System.Run.invariant ?_ ?_ h
  · intro b hb
    exact BackendInv.start h0 hb
  · intro b a c hi hs
    exact hi.step R hs.1 hs.2

end

/-! The answers of the exchanges of a client. -/

theorem first_request (l : List (LocalEvent sch)) : (∀ e ∈ l, ¬ e.isRequest) ∨
    ∃ c p c', l = c ++ .request p :: c' ∧ ∀ e ∈ c, ¬ e.isRequest := by
  induction l with
  | nil => exact .inl nofun
  | cons e l ih =>
    cases e with
    | request p => exact .inr ⟨[], p, l, rfl, nofun⟩
    | call op r =>
      rcases ih with hl | ⟨c, p, c', rfl, hc⟩
      · exact .inl (List.forall_mem_cons.mpr ⟨id, hl⟩)
      · exact .inr ⟨.call op r :: c, p, c', rfl, List.forall_mem_cons.mpr ⟨id, hc⟩⟩

theorem poll_failed_last {log : List (LocalEvent sch)} {s : Server localEffects Exn LocalEnv}
    (h : (localSession sch).Run log s) {pre post : List (LocalEvent sch)} {p : Polled}
    (hlog : log = pre ++ .request p :: post) (hp : ∀ f, p ≠ .frame f) :
    post = [] ∧ s.prog.Ended ∧ s.prog ≠ .ret true := by
  induction h generalizing post with
  | start => exact absurd hlog (by simp)
  | @next tr s t a _ hs ih =>
    rcases List.eq_nil_or_concat post with rfl | ⟨post, a', rfl⟩
    · obtain ⟨_, ha⟩ := List.append_inj' hlog rfl
      obtain rfl := List.head_eq_of_cons_eq ha
      refine ⟨rfl, ?_⟩
      cases hs with
      | request =>
        cases p with
        | frame f => exact absurd rfl (hp f)
        | closed | detached => exact ⟨trivial, nofun⟩
    · have hsplit : tr ++ [a] = (pre ++ .request p :: post) ++ [a'] := by
        rw [hlog]
        simp
      obtain ⟨_, hend, hne⟩ := ih (List.append_inj' hsplit rfl).1
      cases hs with
      | request => exact absurd rfl hne
      | call => exact hend.elim

omit [DecidableEq ι] in
theorem BackendInv.exchange {I : AssetMgr → Prop} {G : AssetMgr → Str → Str → Prop}
    (hi : BackendInv lib I G b) {xs : List (Exchange sch)} {rest : List (LocalEvent sch)}
    (hlog : b.log k = startEvents sch ++ xs.flatMap Exchange.events ++ rest) {x : Exchange sch}
    (hmem : x ∈ xs) (hop : x.request.op = Schema.opMakeAssetsAvailable) : ∃ us paths,
      sch.urls x.request.data = .ok us ∧
      x.reply = ⟨Schema.opMakeAssetsAvailable, .strings paths⟩ ∧
      List.Forall₂ (G b.service.mgr) us paths := by
  obtain ⟨us, g, hu, hg, hreply⟩ := x.right.assets hop
  obtain ⟨ys, zs, rfl⟩ := List.append_of_mem hmem
  have hsplit : b.log k = (startEvents sch ++ ys.flatMap Exchange.events) ++
      .request (Polled.frame x.request) :: (x.calls ++ (zs.flatMap Exchange.events ++ rest)) := by
    rw [hlog]
    simp [Exchange.events]
  have hanswer : ∃ paths, g = assetsFrame paths ∧ List.Forall₂ (G b.service.mgr) us paths := by
    rcases first_request x.calls with hquiet | ⟨c, p, c', hcalls, hquiet⟩
    · exact hi.answers k _ _ _ _ hsplit hquiet hop us g hu hg
    · -- the poll after the answer found the stream closed, and nothing followed
      have hfail : ∀ f, p ≠ .frame f := by
        rintro f rfl
        have honly := x.only
        rw [hcalls, polledFrames_append] at honly
        exact List.cons_ne_nil _ _ (List.append_eq_nil_iff.mp honly).2
      have hlast : b.log k = (startEvents sch ++ ys.flatMap Exchange.events ++
          .request (Polled.frame x.request) :: c) ++
          .request p :: (c' ++ (zs.flatMap Exchange.events ++ rest)) := by
        rw [hsplit, hcalls]
        simp
      obtain ⟨hnil, _⟩ := poll_failed_last (hi.clients.run k) hlast hfail
      obtain ⟨rfl, hrest⟩ := List.append_eq_nil_iff.mp hnil
      rw [hcalls, amgrReply_call (e := .request p) rfl] at hg
      have hlog' : b.log k = (startEvents sch ++ ys.flatMap Exchange.events) ++
          .request (Polled.frame x.request) :: (c ++ [.request p]) := by
        rw [hlast, hrest]
        simp
      exact hi.answers k _ _ c _ hlog' hquiet hop us g hu hg
  obtain ⟨paths, rfl, hfor⟩ := hanswer
  exact ⟨us, paths, hu, hreply, hfor⟩

/-- In every interleaving of any number of clients and the asset manager, over a directory where
`basicStat` is right and nothing but files is downloaded to: each request for assets that a client
was answered was answered with one path for each URL of its own, in its order, and each path is
empty or that of a file that is there. -/
theorem clients_own_answers {tr : List (BackendEvent ι sch)} (hx : FilesExact dir fs)
    (h : (assetBackend ι lib sch cap dir fs).Run tr b) (k : ι)
    {xs : List (Exchange sch)} {rest : List (LocalEvent sch)}
    (hlog : b.log k = startEvents sch ++ xs.flatMap Exchange.events ++ rest) :
    ∀ x ∈ xs, x.request.op = Schema.opMakeAssetsAvailable → ∃ us paths,
      sch.urls x.request.data = .ok us ∧
      x.reply = ⟨Schema.opMakeAssetsAvailable, .strings paths⟩ ∧
      List.Forall₂ (FilePath b.service.mgr) us paths := by
  have hi := backend_inv fileRule (.construct hx) (h.guard_of servedWith_any)
  intro x hmem hop
  exact hi.exchange hlog hmem hop

/-! A request under way never waits for ever. -/

theorem exec_calls {p q : LocalProg Bool} {w w' : LocalEnv} {mid : List (LocalEvent sch)}
    (h : Exec (acordRun sch) localEnv p w mid q w') : ∀ e ∈ mid, ¬ e.isRequest := by
  induction h with
  | refl => exact nofun
  | call _ _ ih => exact List.forall_mem_cons.mpr ⟨id, ih⟩

theorem last_of_business {log : List (LocalEvent sch)} {s : Server localEffects Exn LocalEnv}
    (h : (localSession sch).Run log s) (hb : ¬ Apart s.prog) :
    ∃ pre p mid, LastAt Event.isRequest log pre (.request p) mid := by
  rcases Loop.run_served h with hstart | ⟨pre, _, _, p, mid, hlog, _, _, he⟩
  · exact absurd (hstart.all_rest (start_apart sch)) hb
  · exact ⟨pre, p, mid, hlog, trivial, exec_calls he⟩

theorem step_caps {a : BackendEvent ι sch} (hs : BackendStep lib sch b a c) (i : Nat) :
    (c.up i).cap = (b.up i).cap ∧ (c.down i).cap = (b.down i).cap := by
  have hcap : ∀ {f : Nat → Channel Ac.Frame} {i : Nat} {ch : Channel Ac.Frame},
      ch.cap = (f i).cap → ∀ j, (Function.update f i ch j).cap = (f j).cap :=
    fun h => update_rel (P := fun a c : Channel Ac.Frame => c.cap = a.cap) (fun _ => rfl) h
  have hdials : ∀ {k : ι} {e : LocalEvent sch} {c : AssetBackend ι sch}, Dials sch k b e c →
      (c.up i).cap = (b.up i).cap ∧ (c.down i).cap = (b.down i).cap := by
    intro k e c io
    cases io with
    | wrote => exact ⟨hcap (by rfl) i, rfl⟩
    | read => exact ⟨rfl, hcap (by rfl) i⟩
    | connected | writeClosed | readClosed | elsewhere => exact ⟨rfl, rfl⟩
  have hhang : ∀ (c : AssetBackend ι sch) (k : ι), ((c.hangUp k).up i).cap = (c.up i).cap ∧
      ((c.hangUp k).down i).cap = (c.down i).cap := by
    intro c k
    unfold hangUp
    split
    · exact ⟨rfl, rfl⟩
    · exact ⟨hcap (by rfl) i, hcap (by rfl) i⟩
  cases hs with
  | called _ io =>
    obtain ⟨h1, h2⟩ := hdials io
    exact ⟨h1, h2⟩
  | @served c k e s _ io =>
    obtain ⟨h1, h2⟩ := hhang (c.advance k e s) k
    obtain ⟨h3, h4⟩ := hdials io
    exact ⟨h1.trans h3, h2.trans h4⟩
  | pushed => exact ⟨rfl, hcap (by rfl) i⟩
  | polled => exact ⟨hcap (by rfl) i, rfl⟩
  | failed => exact ⟨(hcap (by rfl) i).trans (hcap (by rfl) i), hcap (by rfl) i⟩
  | closed => exact ⟨hcap (by rfl) i, hcap (by rfl) i⟩

def BackendEvent.Between (k : ι) (i : Nat) : BackendEvent ι sch → Prop
  | .client k' _ => k' = k
  | .service (.pushed j _) | .service (.polled j _ _) | .service (.closed j) => j = i

theorem client_moves {s : Server localEffects Exn LocalEnv}
    (run : (localSession sch).step (b.coro k) e s) (io : Dials sch k b e c) :
    ∃ c', BackendStep lib sch b (.client k e) c' := by
  by_cases hend : s.prog.Ended
  · exact ⟨_, .served run io hend⟩
  · exact ⟨_, .called run io hend⟩

theorem session_polls (k : ι) {cmd : Ac.Frame} {rest : List Ac.Frame}
    (hs : b.service.sessions i = .polling) (hlt : i < b.sessions)
    (due : (b.up i).buf = cmd :: rest) :
    ∃ x c', BackendStep lib sch b (.service x) c' ∧
      (BackendEvent.service x : BackendEvent ι sch).Between k i := by
  have step : AssetStep lib _ (.polled i cmd fun _ => sampleOutcomes 0) _ := .polled hs
  by_cases hok : ∃ reply, (AssetSession.after cmd
      (runCommand lib b.service.mgr cmd fun _ => sampleOutcomes 0).1) = .replying cmd reply
  · obtain ⟨reply, hok⟩ := hok
    exact ⟨_, _, .polled step hlt due ((AssetService.put_same _ _ _).trans hok), rfl⟩
  · refine ⟨_, _, .failed step hlt due fun reply hr => hok ⟨reply, ?_⟩, rfl⟩
    rwa [AssetService.put_same] at hr

section
variable {tr : List (BackendEvent ι sch)}

theorem backend_caps (hcap : 0 < cap) (h : (assetBackend ι lib sch cap dir fs).Run tr b) (i : Nat) :
    0 < (b.up i).cap ∧ 0 < (b.down i).cap := by
  have hall : ∀ i, (b.up i).cap = cap ∧ (b.down i).cap = cap := by
    refine h.invariant (I := fun b => ∀ i, (b.up i).cap = cap ∧ (b.down i).cap = cap) ?_ ?_
    · rintro b rfl i
      exact ⟨rfl, rfl⟩
    · intro b a c hb hs i
      obtain ⟨h1, h2⟩ := step_caps hs i
      exact ⟨h1.trans (hb i).1, h2.trans (hb i).2⟩
  obtain ⟨hup, hdown⟩ := hall i
  exact ⟨hup ▸ hcap, hdown ▸ hcap⟩

theorem backend_any (h : (assetBackend ι lib sch cap dir fs).Run tr b) :
    ∃ (I : AssetMgr → Prop) (G : AssetMgr → Str → Str → Prop), BackendInv lib I G b := by
  have hr : CacheReported dir (.construct dir fs) := fun _ _ h => nomatch h
  exact ⟨_, _, backend_inv (confinedRule dir (.construct dir fs) rfl) ⟨.refl _, hr⟩
    (h.guard_of servedWith_any)⟩

variable {I : AssetMgr → Prop} {G : AssetMgr → Str → Str → Prop} {w : LocalEnv}

theorem write_moves {g : Ac.Frame} {f : Pushed → LocalProg Bool} (hi : BackendInv lib I G b)
    (hcap : 0 < (b.up i).cap) (hk : b.conn k = some i)
    (hs : b.coro k = ⟨.call (.aioPush g) f, w⟩) :
    ∃ e s c, (localSession sch).step (b.coro k) e s ∧ Dials sch k b e c := by
  -- a coroutine that has a command to write has room for it: it is the only one it writes there
  have hrun := hi.clients.run k
  rw [hs] at hrun ⊢
  obtain ⟨pre, p, mid, hl⟩ := last_of_business hrun fun ha => ha.1 trivial
  obtain ⟨_, _, ⟨_, us, _, _, _, hask⟩ | ⟨ha, _⟩⟩ := last_handler hrun hl
  · obtain ⟨hnone, _⟩ := hask.writes _ _ rfl
    have hpushed : (b.up i).pushed = [] := (hi.clients.traffic k i hk pre _ mid hl).1.trans hnone
    rw [(b.up i).ledger] at hpushed
    have hroom := Channel.roomy hcap (List.append_eq_nil_iff.mp hpushed).2
    cases hclosed : (b.up i).closed with
    | true => exact ⟨_, _, _, .call (r := Pushed.closed) nofun, .writeClosed hk hclosed⟩
    | false => exact ⟨_, _, _, .call (r := Pushed.ok) nofun, .wrote hk hclosed hroom⟩
  · exact absurd trivial ha.1

theorem read_moves {f : Polled → LocalProg Bool} (hi : BackendInv lib I G b)
    (hcap : 0 < (b.down i).cap) (hk : b.conn k = some i) (hs : b.coro k = ⟨.call .aioPoll f, w⟩) :
    (∃ e s c, (localSession sch).step (b.coro k) e s ∧ Dials sch k b e c) ∨
    ∃ x c, BackendStep lib sch b (.service x) c ∧
      (BackendEvent.service x : BackendEvent ι sch).Between k i := by
  -- a coroutine that awaits a frame has one to read, or the session it is connected to has one to
  -- write or to poll
  have hrun := hi.clients.run k
  rw [hs] at hrun ⊢
  cases hb : (b.down i).buf with
  | cons g rest =>
    exact .inl ⟨_, _, _, .call (r := Polled.frame g) nofun, .read hk hb⟩
  | nil =>
    cases hclosed : (b.down i).closed with
    | true => exact .inl ⟨_, _, _, .call (r := Polled.closed) nofun, .readClosed hk hb hclosed⟩
    | false =>
      -- nothing to read yet, so it is the session that moves
      right
      have hlt := hi.clients.dialled k i hk
      have hroom := Channel.roomy hcap hb
      have hspoken := hi.service.spoken i
      have hover := hi.service.closed i
      cases hsession : b.service.sessions i with
      | greeting => exact ⟨_, _, .pushed (.greeted hsession) hlt hclosed hroom, rfl⟩
      | replying cmd reply => exact ⟨_, _, .pushed (.replied hsession) hlt hclosed hroom, rfl⟩
      | closed | escaped =>
        rw [hsession] at hover
        rw [(hover trivial).2] at hclosed
        cases hclosed
      | polling =>
        rw [hsession] at hspoken
        obtain ⟨rs, hsaid, hfor⟩ := hspoken
        obtain ⟨pre, p, mid, hl⟩ := last_of_business hrun fun ha => ha.1 trivial
        obtain ⟨hsent, hgot⟩ := hi.clients.traffic k i hk pre _ mid hl
        rw [Channel.popped_eq_pushed hb, hsaid] at hgot
        obtain ⟨_, _, ⟨_, us, _, _, _, hask⟩ | ⟨ha, _⟩⟩ := last_handler hrun hl
        · rcases hask.reads _ rfl with ⟨_, hnone⟩ | ⟨hasked, hone⟩
          · rw [hnone] at hgot
            cases hgot
          · rw [← hgot, List.length_cons] at hone
            obtain rfl := List.length_eq_zero_iff.mp (Nat.succ.inj hone)
            cases hpopped : (b.up i).popped with
            | cons => exact absurd (hpopped ▸ hfor) nofun
            | nil =>
              rw [hasked, (b.up i).ledger, hpopped, List.nil_append] at hsent
              exact session_polls k hsession hlt hsent
        · exact absurd trivial ha.1

end

section
variable {tr : List (BackendEvent ι sch)} {Q : AssetBackend ι sch → BackendEvent ι sch → Prop}
  {op : LocalOp} {f : op.Res → LocalProg Bool} {w : LocalEnv}

theorem run_backend_call (h : ((assetBackend ι lib sch cap dir fs).guard Q).Run tr b)
    (hs : b.coro k = ⟨.call op f, w⟩) (r : op.Res) (hr : localEnv.allow w op r)
    (hq : Q b (.client k (.call op r))) (io : Dials sch k b (.call op r) c) (on : ¬ (f r).Ended) :
    ((assetBackend ι lib sch cap dir fs).guard Q).Run (tr ++ [.client k (.call op r)])
      (c.advance k (.call op r) ⟨f r, localEnv.next w op r⟩) :=
  h.next ⟨hq, .called (hs ▸ .call hr) io on⟩

theorem run_backend_last (h : ((assetBackend ι lib sch cap dir fs).guard Q).Run tr b)
    (hs : b.coro k = ⟨.call op f, w⟩) (r : op.Res) (hr : localEnv.allow w op r)
    (hq : Q b (.client k (.call op r))) (io : Dials sch k b (.call op r) c) (through : (f r).Ended) :
    ((assetBackend ι lib sch cap dir fs).guard Q).Run (tr ++ [.client k (.call op r)])
      ((c.advance k (.call op r) ⟨f r, localEnv.next w op r⟩).hangUp k) :=
  h.next ⟨hq, .served (hs ▸ .call hr) io through⟩

theorem run_backend_poll (h : ((assetBackend ι lib sch cap dir fs).guard Q).Run tr b)
    (hs : b.coro k = ⟨.ret true, w⟩) (hw : w.detached = false) (f : Ac.Frame)
    (hq : Q b (.client k (.request (Polled.frame f))))
    (on : ¬ (catchClosed (serve sch (.frame f))).Ended) :
    ((assetBackend ι lib sch cap dir fs).guard Q).Run (tr ++ [.client k (.request (Polled.frame f))])
      (b.advance k (.request (Polled.frame f)) ⟨catchClosed (serve sch (.frame f)), w⟩) := by
  have hstep : (localSession sch).step ⟨.ret true, w⟩ (.request (Polled.frame f))
      ⟨catchClosed (serve sch (.frame f)), w⟩ :=
    Loop.Step.request (L := acordRun sch) (r := Polled.frame f) hw
  exact h.next ⟨hq, .called (hs ▸ hstep) (.elsewhere trivial) on⟩

end

theorem assetCalls_right : RepliesTo assetRequest assetCalls assetReply where
  sent := rfl
  accepted := rfl
  assets _ := ⟨[lit "h/m"], assetsFrame [lit "/a/m"], rfl, rfl, rfl⟩
  refused h := absurd h (by decide)
  unknown h := absurd rfl h

def assetExchange : Exchange sampleSchema :=
  ⟨assetRequest, assetCalls, assetReply, rfl, assetCalls_right⟩

theorem clients_own_answers_m : ∃ tr b, (assetBackend Bool sampleFrames sampleSchema 1
    sampleMgr.mainAssetDir fun _ => none).Run tr b ∧
    List.Forall₂ (FilePath b.service.mgr) [lit "h/m"] [lit "/a/m"] := by
  have h0 := System.Run.start (M := (assetBackend Bool sampleFrames sampleSchema 1
    sampleMgr.mainAssetDir fun _ => none).guard fun _ _ => True) rfl
  have h1 := run_backend_last (k := true) h0 rfl Pushed.ok ⟨rfl, rfl⟩ trivial
    (.elsewhere trivial) trivial
  have h2 := run_backend_poll (k := true) h1 rfl rfl assetRequest trivial id
  have h3 := run_backend_call (k := true) h2 rfl (Except.ok ()) trivial trivial .connected id
  have h4 := h3.next (a := BackendEvent.service (.pushed 0 (sampleFrames.stateChange Amgr.stateId)))
    ⟨trivial, .pushed (.greeted rfl) (by decide) rfl (by decide)⟩
  have h5 := run_backend_call (k := true) h4 rfl
    (Polled.frame (sampleFrames.stateChange Amgr.stateId)) nofun trivial
    (.read (i := 0) rfl (Eq.refl [_])) id
  have h6 := run_backend_call (k := true) h5 rfl Pushed.ok nofun trivial
    (.wrote (i := 0) rfl rfl (by decide)) id
  have h7 := h6.next
    (a := BackendEvent.service (.polled 0 (urlsRequest [lit "h/m"]) fun _ => sampleOutcomes 2))
    ⟨trivial, .polled (.polled rfl) (by decide) (Eq.refl [_]) rfl⟩
  have h8 := h7.next (a := BackendEvent.service (.pushed 0 (assetsFrame [lit "/a/m"])))
    ⟨trivial, .pushed (.replied rfl) (by decide) rfl (by decide)⟩
  have h9 := run_backend_call (k := true) h8 rfl (Polled.frame (assetsFrame [lit "/a/m"])) nofun trivial
    (.read (i := 0) rfl (Eq.refl [_])) id
  have h10 := run_backend_last (k := true) h9 rfl Pushed.ok ⟨rfl, rfl⟩ trivial
    (.elsewhere trivial) trivial
  have hx := FilesExact.empty sampleMgr.mainAssetDir
  obtain ⟨us, paths, hu, hreply, hfor⟩ := clients_own_answers hx h10.of_guard true
    (rfl : _ = startEvents sampleSchema ++ [assetExchange].flatMap Exchange.events ++ [])
    assetExchange (List.mem_singleton_self _) rfl
  obtain rfl : [lit "h/m"] = us := Except.ok.inj hu
  obtain rfl : [lit "/a/m"] = paths := Dict.strings_inj (congrArg Frame.data hreply)
  exact ⟨_, _, h10.of_guard, hfor⟩

end Acord
