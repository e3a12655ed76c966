import Mathlib.Data.Fintype.BigOperators
import Acord.AppProgress
import Acord.DaemonWork
import Acord.Lib.Shares

/-! The whole server comes to rest: the steps it takes by itself, for all its clients together, are
bounded by the frames it was given. -/

namespace Acord
open Ac Channels RequestLoop Transition AssetBackend Shares

variable {ι : Type} [DecidableEq ι] {sch : SchemaLib} {lib : DictLib} {frames : FrameLib}
  {cap : Nat} {dir : AssetDir} {fs : Fs} {b c : AssetBackend ι sch} {k : ι} {i : Nat}
  {e : LocalEvent sch} {a a' : App ι sch} {tr : List (AppEvent ι sch)}

/-! The work of the asset manager: two steps for each session dialled, and two for each command. -/

def AssetSession.work : AssetSession → Nat
  | .greeting | .replying _ _ => 2
  | .polling => 1
  | .closed | .escaped _ => 0

def AssetBackend.sessionWork (b : AssetBackend ι sch) (i : Nat) : Nat :=
  (b.service.sessions i).work + 2 * (b.up i).buf.length

def AssetBackend.work (b : AssetBackend ι sch) : Nat :=
  ∑ i ∈ Finset.range b.sessions, b.sessionWork i

theorem AssetSession.work_le (s : AssetSession) : s.work ≤ 2 := by
  cases s <;> simp [AssetSession.work]

theorem AssetSession.Over.work {s : AssetSession} (h : s.Over) : s.work = 0 := by
  cases s with
  | closed | escaped => rfl
  | greeting | polling | replying => exact h.elim

omit [DecidableEq ι] in
theorem work_congr (hs : c.sessions = b.sessions) (hw : ∀ i, c.sessionWork i = b.sessionWork i) :
    c.work = b.work := by
  unfold AssetBackend.work
  rw [hs]
  exact Finset.sum_congr rfl fun i _ => hw i

theorem service_work {x : AssetEvent} (hs : BackendStep frames sch b (.service x) c) :
    c.work + 1 ≤ b.work := by
  have hstep : ∀ {i : Nat} {c : AssetBackend ι sch}, i < b.sessions → c.sessions = b.sessions →
      (∀ j, j ≠ i → c.service.sessions j = b.service.sessions j ∧ c.up j = b.up j) →
      ∀ s buf, c.service.sessions i = s → (c.up i).buf = buf →
      s.work + 2 * buf.length + 1 ≤ (b.service.sessions i).work + 2 * (b.up i).buf.length →
      c.work + 1 ≤ b.work := by
    rintro i c hi hsame hother s buf rfl rfl hmine
    unfold AssetBackend.work
    rw [hsame]
    refine sum_step (y := 0) (Finset.mem_range.mpr hi) (fun j hj => ?_) hmine
    obtain ⟨h1, h2⟩ := hother j hj
    unfold sessionWork
    rw [h1, h2]
  have hput : ∀ {u : AssetService} {i j : Nat} {s : AssetSession}, j ≠ i →
      (u.put i s).sessions j = u.sessions j := AssetService.put_other
  have hne : ∀ {f : Nat → Channel Ac.Frame} {i j : Nat} {ch : Channel Ac.Frame}, j ≠ i →
      Function.update f i ch j = f j := fun hj => Function.update_of_ne hj _ _
  have heq : ∀ {f : Nat → Channel Ac.Frame} {i : Nat} {ch : Channel Ac.Frame},
      Function.update f i ch i = ch := Function.update_self _ _ _
  cases hs with
  | @pushed i f s step dialled live room =>
    cases step with
    | greeted due | replied due =>
      refine hstep dialled rfl (fun j hj => ⟨hput hj, rfl⟩) _ _ (AssetService.put_same _ _ _) rfl ?_
      rw [due]
      exact Nat.le_of_eq (Nat.add_right_comm _ _ _)
  | @polled i cmd reply rest os s step dialled due ok =>
    cases step with
    | polled hpolls =>
      refine hstep dialled rfl (fun j hj => ⟨hput hj, hne hj⟩) _ rest ok (congrArg Channel.buf heq) ?_
      rw [hpolls, due, List.length_cons]
      show 2 + 2 * rest.length + 1 ≤ 1 + 2 * (rest.length + 1)
      omega
  | @failed i cmd rest os s step dialled due ko =>
    cases step with
    | polled hpolls =>
      have hnow := AssetService.put_same { b.service with mgr := (runCommand frames b.service.mgr cmd os).2 }
        i (.after cmd (runCommand frames b.service.mgr cmd os).1)
      have hover := (after_over fun reply hr => ko reply (hnow.trans hr)).work
      refine hstep dialled rfl (fun j hj => ⟨hput hj, (hne hj).trans (hne hj)⟩) _ rest hnow
        ((congrArg Channel.buf heq).trans (congrArg Channel.buf heq)) ?_
      rw [hpolls, hover, due, List.length_cons]
      show 0 + 2 * rest.length + 1 ≤ 1 + 2 * (rest.length + 1)
      omega
  | @closed i s step dialled found =>
    cases step with
    | closed due =>
      refine hstep dialled rfl (fun j hj => ⟨hput hj, hne hj⟩) _ _ (AssetService.put_same _ _ _)
        (congrArg Channel.buf heq) ?_
      have hlive : 1 ≤ (b.service.sessions i).work := by
        cases hsession : b.service.sessions i with
        | greeting | replying => exact Nat.le_succ 1
        | polling => exact Nat.le_refl 1
        | closed | escaped =>
          rw [hsession] at found
          exact found.elim
      show 0 + 2 * (b.up i).buf.length + 1 ≤ _
      omega

theorem hangUp_work (b : AssetBackend ι sch) (k : ι) : (b.hangUp k).work = b.work := by
  unfold hangUp
  split
  · rfl
  next i _ =>
    refine work_congr rfl fun j => ?_
    have hbuf : ((b.shut i).up j).buf = (b.up j).buf :=
      update_rel (P := fun a c : Channel Ac.Frame => c.buf = a.buf) (fun _ => rfl) (by rfl) j
    exact congrArg (fun n => (b.service.sessions j).work + 2 * n) (congrArg List.length hbuf)

theorem dials_work (hi : ClientSide b) (io : Dials sch k b e c) :
    c.work ≤ b.work + 2 ∧ (LocalEvent.Elsewhere e → c.work ≤ b.work) := by
  -- dialling a session, and writing a command to it, give the asset manager two more steps to
  -- take; no other call does
  cases io with
  | connected =>
    refine ⟨?_, False.elim⟩
    have hfresh := (hi.fresh b.sessions (Nat.le_refl _)).1
    rw [(b.up b.sessions).ledger] at hfresh
    have hbuf : (b.up b.sessions).buf.length = 0 :=
      congrArg List.length (List.append_eq_nil_iff.mp hfresh).2
    have hnew : b.sessionWork b.sessions ≤ 2 := by
      have hle := (b.service.sessions b.sessions).work_le
      unfold sessionWork
      omega
    have hsum : (b.dial k).work = b.work + b.sessionWork b.sessions := Finset.sum_range_succ _ _
    omega
  | @wrote i f own live room =>
    refine ⟨?_, False.elim⟩
    refine sum_step (x := 0) (Finset.mem_range.mpr (hi.dialled k i own)) (fun j hj => ?_) ?_
    · have hup : (b.setUp i ((b.up i).push f)).up j = b.up j := Function.update_of_ne hj _ _
      unfold sessionWork
      rw [hup]
      rfl
    · have hup : (b.setUp i ((b.up i).push f)).up i = (b.up i).push f := Function.update_self _ _ _
      unfold sessionWork
      rw [hup, Channel.push_buf, List.length_append]
      exact Nat.le_refl _
  | read | writeClosed | readClosed | elsewhere =>
    exact ⟨Nat.le_add_right _ _, fun _ => Nat.le_refl _⟩

theorem client_work (hi : ClientSide b) (hs : BackendStep frames sch b (.client k e) c) :
    c.work ≤ b.work + 2 ∧ (LocalEvent.Elsewhere e → c.work ≤ b.work) := by
  cases hs with
  | @called c _ _ s run io on =>
    have hwork := dials_work hi io
    exact hwork
  | @served c _ _ s run io through =>
    have hwork := dials_work hi io
    rw [hangUp_work]
    exact hwork

/-! Each client's share of a run. -/

namespace AppEvent

def atClient (k : ι) : AppEvent ι sch → Option (DaemonEvent sch)
  | .coroutine j e => if j = k then some (.session e) else none
  | .connection j e => if j = k then some e else none
  | .opened _ | .asset _ => none

def isCoroutine : AppEvent ι sch → Bool
  | .coroutine _ _ => true
  | _ => false

def isAsset : AppEvent ι sch → Bool
  | .asset _ => true
  | _ => false

def ofClient : AppEvent ι sch → Bool
  | .coroutine _ _ => true
  | .connection _ e => ¬ e.outer
  | .opened _ | .asset _ => false

instance : DecidablePred (@AppEvent.outer ι sch)
  | .opened _ => isTrue trivial
  | .coroutine _ _ | .asset _ => isFalse id
  | .connection _ e => inferInstanceAs (Decidable e.outer)

end AppEvent

theorem app_assets (h : (app ι lib frames sch cap dir fs).Run tr a) :
    a.backend.work + tr.countP AppEvent.isAsset ≤ 2 * tr.countP AppEvent.isCoroutine := by
  induction h with
  | @start a h =>
    obtain ⟨_, hb⟩ := h
    obtain ⟨conns, b⟩ := a
    obtain rfl := hb
    exact Nat.le_refl 0
  | @next tr a a' x hr hs ih =>
    obtain ⟨tr', hbackend⟩ := (app_backend hr).backend
    obtain ⟨I, G, hi⟩ := backend_any hbackend.of_guard
    rw [List.countP_append, List.countP_append]
    cases hs with
    | waiting | connection => exact ih
    | @greeted k d e b new opened due call =>
      have helse : LocalEvent.Elsewhere e := by
        rcases opened.coroutine with ⟨hnone, _⟩ | ⟨hstarted, _⟩
        · rw [due] at hnone
          cases hnone
        · obtain rfl := List.head_eq_of_cons_eq (due.symm.trans hstarted)
          trivial
      have hwork := (client_work hi.clients call).2 helse
      exact (Nat.add_le_add_right hwork _).trans ih
    | @coroutine k d d' e b at_ step call =>
      have hwork := (client_work hi.clients call).1
      show b.work + (tr.countP AppEvent.isAsset + 0) ≤ 2 * (tr.countP AppEvent.isCoroutine + 1)
      omega
    | @asset x b step =>
      have hwork := service_work step
      show b.work + (tr.countP AppEvent.isAsset + 1) ≤ 2 * (tr.countP AppEvent.isCoroutine + 0)
      omega

def Share (lib : DictLib) (sch : SchemaLib) (tr : List (DaemonEvent sch)) :
    Option (Daemon sch) → Prop
  | none => tr = []
  | some d => (daemon lib sch).Run tr d

theorem share_set {j : ι} {d : Daemon sch} {tr' : List (DaemonEvent sch)}
    (hother : k ≠ j → Share lib sch tr' (a.conns k))
    (hmine : k = j → (daemon lib sch).Run tr' d) : Share lib sch tr' ((a.setConn j d).conns k) := by
  by_cases hk : k = j
  · subst hk
    rw [App.setConn_self]
    exact hmine rfl
  · rw [App.setConn_other _ _ _ hk]
    exact hother hk

theorem app_shares (h : (app ι lib frames sch cap dir fs).Run tr a) (k : ι) :
    Share lib sch (tr.filterMap (AppEvent.atClient k)) (a.conns k) := by
  induction h with
  | start h =>
    rw [h.1 k]
    rfl
  | @next tr a a' x hr hs ih =>
    have hopened : ∀ {j d} {a' : App ι sch}, a'.conns = a.conns → a.conns j = none →
        DaemonOpened lib sch d → Share lib sch ((tr ++ [AppEvent.opened j]).filterMap (AppEvent.atClient k))
          ((a'.setConn j d).conns k) := by
      intro j d a' hsame new opened
      have hnone : (AppEvent.opened j : AppEvent ι sch).atClient k = none := rfl
      rw [filterMap_snoc, hnone, Option.toList_none, List.append_nil]
      refine share_set (fun _ => hsame ▸ ih) ?_
      rintro rfl
      rw [new] at ih
      rw [show tr.filterMap (AppEvent.atClient k) = [] from ih]
      exact .start opened
    have hmoved : ∀ {j d d' e} {a' : App ι sch} {x : AppEvent ι sch}, a'.conns = a.conns →
        a.conns j = some d → DaemonStep lib sch d e d' →
        x.atClient k = (if j = k then some e else none) →
        Share lib sch ((tr ++ [x]).filterMap (AppEvent.atClient k)) ((a'.setConn j d').conns k) := by
      intro j d d' e a' x hsame at_ step hx
      rw [filterMap_snoc, hx]
      refine share_set (fun hk => ?_) ?_
      · rw [if_neg (Ne.symm hk), Option.toList_none, List.append_nil]
        exact hsame ▸ ih
      · rintro rfl
        rw [at_] at ih
        rw [if_pos rfl]
        exact System.Run.next ih step
    cases hs with
    | waiting new opened => exact hopened rfl new opened
    | greeted new opened => exact hopened rfl new opened
    | coroutine at_ step => exact hmoved rfl at_ step rfl
    | connection at_ step => exact hmoved rfl at_ step rfl
    | asset =>
      rw [filterMap_snoc]
      exact (List.append_nil _).symm ▸ ih

theorem app_clients (h : (app ι lib frames sch cap dir fs).Run tr a) :
    ∃ S : Finset ι, ∀ k, k ∈ S ↔ a.conns k ≠ none := by
  induction h with
  | start h => exact ⟨∅, fun k => by simp [h.1 k]⟩
  | @next tr a a' x hr hs ih =>
    obtain ⟨S, hS⟩ := ih
    have hset : ∀ {j d} {a' : App ι sch}, a'.conns = a.conns →
        ∃ S : Finset ι, ∀ k, k ∈ S ↔ (a'.setConn j d).conns k ≠ none := by
      intro j d a' hsame
      refine ⟨insert j S, fun k => ?_⟩
      rw [Finset.mem_insert, hS, ← hsame]
      by_cases hk : k = j
      · subst hk
        simp [App.setConn_self]
      · simp [App.setConn_other _ _ _ hk, hk]
    cases hs with
    | waiting | greeted | coroutine | connection => exact hset rfl
    | asset => exact ⟨S, hS⟩

def App.allowance (a : App ι sch) (k : ι) : Nat :=
  match a.conns k with
  | none => 0
  | some d => 48 * d.client.readStream.pushed.length + 7 * d.providerWrote.length + 13

theorem share_spends (h : (app ι lib frames sch cap dir fs).Run tr a) (k : ι) :
    (tr.filterMap (AppEvent.atClient k)).countP (fun e => ¬ e.outer) ≤ a.allowance k := by
  have hshare := app_shares h k
  unfold App.allowance
  cases hk : a.conns k with
  | none =>
    rw [hk] at hshare
    rw [show tr.filterMap (AppEvent.atClient k) = [] from hshare]
    exact Nat.le_refl 0
  | some d =>
    rw [hk] at hshare
    obtain ⟨n, _, hle⟩ := daemon_spends hshare
    exact (Nat.le_add_left _ _).trans hle

theorem app_clients_spend (h : (app ι lib frames sch cap dir fs).Run tr a) {S : Finset ι}
    (hS : ∀ k, k ∈ S ↔ a.conns k ≠ none) :
    tr.countP AppEvent.ofClient ≤ ∑ k ∈ S, a.allowance k := by
  -- whoever takes a step has been opened
  have hopened : ∀ {k e x}, x ∈ tr → x.atClient k = some e → k ∈ S := by
    intro k e x hx he
    have hmem : e ∈ tr.filterMap (AppEvent.atClient k) := List.mem_filterMap.mpr ⟨x, hx, he⟩
    have hshare := app_shares h k
    rw [hS]
    intro hnone
    rw [hnone] at hshare
    rw [show tr.filterMap (AppEvent.atClient k) = [] from hshare] at hmem
    cases hmem
  have hshared : tr.countP AppEvent.ofClient ≤ ∑ k ∈ S, tr.countP fun x =>
      ((x.atClient k).map fun e => decide (¬ e.outer)).getD false := by
    apply countP_le
    intro x hx hp
    cases x with
    | opened | asset => cases hp
    | coroutine k e =>
      have hat : (AppEvent.coroutine k e).atClient k = some (.session e) := if_pos rfl
      refine ⟨k, hopened hx hat, ?_⟩
      rw [hat]
      rfl
    | connection k e =>
      have hat : (AppEvent.connection k e).atClient k = some e := if_pos rfl
      refine ⟨k, hopened hx hat, ?_⟩
      rw [hat]
      exact hp
  refine hshared.trans (Finset.sum_le_sum fun k _ => ?_)
  rw [← List.countP_filterMap]
  exact share_spends h k

theorem app_spends (h : (app ι lib frames sch cap dir fs).Run tr a) {S : Finset ι}
    (hS : ∀ k, k ∈ S ↔ a.conns k ≠ none) :
    tr.countP (fun x => ¬ x.outer) ≤ 3 * ∑ k ∈ S, a.allowance k := by
  have hassets := app_assets h
  have hclients := app_clients_spend h hS
  have hcalls : tr.countP AppEvent.isCoroutine ≤ tr.countP AppEvent.ofClient := by
    refine List.countP_mono_left fun x _ hx => ?_
    cases x with
    | coroutine => rfl
    | opened | connection | asset => cases hx
  have hsplit : tr.countP (fun x => ¬ x.outer) ≤
      ∑ b : Bool, tr.countP (if b then AppEvent.isAsset else AppEvent.ofClient) := by
    refine countP_le fun x _ hx => ?_
    cases x with
    | opened => cases hx
    | coroutine => exact ⟨false, Finset.mem_univ _, rfl⟩
    | connection => exact ⟨false, Finset.mem_univ _, hx⟩
    | asset => exact ⟨true, Finset.mem_univ _, rfl⟩
  rw [Fintype.sum_bool] at hsplit
  simp only [if_true, Bool.false_eq_true, if_false] at hsplit
  omega

theorem appStep_given {x : AppEvent ι sch} (hs : AppStep lib frames sch a x a') (hx : ¬ x.outer)
    (k : ι) : (a'.conns k = none ↔ a.conns k = none) ∧ a'.allowance k = a.allowance k := by
  have hset : ∀ {j d d'} {c : App ι sch}, c.conns = a.conns → a.conns j = some d →
      d'.client.readStream.pushed = d.client.readStream.pushed →
      d'.providerWrote = d.providerWrote →
      ((c.setConn j d').conns k = none ↔ a.conns k = none) ∧
        (c.setConn j d').allowance k = a.allowance k := by
    intro j d d' c hsame at_ hread hwrote
    unfold App.allowance
    by_cases hk : k = j
    · subst hk
      rw [App.setConn_self, at_]
      simp [hread, hwrote]
    · rw [App.setConn_other _ _ _ hk, hsame]
      exact ⟨Iff.rfl, rfl⟩
  cases hs with
  | waiting | greeted => exact absurd trivial hx
  | coroutine at_ step =>
    obtain ⟨hread, hwrote⟩ := daemonStep_given step id
    exact hset rfl at_ hread hwrote
  | connection at_ step =>
    obtain ⟨hread, hwrote⟩ := daemonStep_given step hx
    exact hset rfl at_ hread hwrote
  | asset => exact ⟨Iff.rfl, rfl⟩

theorem appRun_given {tr : List (AppEvent ι sch)}
    (h : ((app ι lib frames sch cap dir fs).after a).Run tr a') (hx : ∀ x ∈ tr, ¬ x.outer) (k : ι) :
    (a'.conns k = none ↔ a.conns k = none) ∧ a'.allowance k = a.allowance k := by
  induction h with
  | start h =>
    obtain rfl := h
    exact ⟨Iff.rfl, rfl⟩
  | @next tr a₁ a₂ x _ hs ih =>
    obtain ⟨hall, hlast⟩ := List.forall_mem_append.mp hx
    obtain ⟨h1, h2⟩ := ih hall
    obtain ⟨h3, h4⟩ := appStep_given hs (hlast x (List.mem_singleton_self x)) k
    exact ⟨h3.trans h1, h4.trans h2⟩

/-- In every run of the server, whatever the order of the steps of its clients' connections, of
their coroutines and of the sessions of the asset manager: it has taken at most three times as many
by itself as its open connections are allowed, 48 for each frame a client wrote, 7 for each one its
provider wrote, and 13. Left to itself it comes to rest. -/
theorem app_settles (h : (app ι lib frames sch cap dir fs).Run tr a) :
    (∃ S : Finset ι, (∀ k, k ∈ S ↔ a.conns k ≠ none) ∧
      tr.countP (fun x => ¬ x.outer) ≤ 3 * ∑ k ∈ S, a.allowance k) ∧
    ∃ tr' a', ((app ι lib frames sch cap dir fs).after a).Run tr' a' ∧ (∀ x ∈ tr', ¬ x.outer) ∧
      a'.Quiet lib frames := by
  obtain ⟨S, hS⟩ := app_clients h
  refine ⟨⟨S, hS, app_spends h hS⟩, ?_⟩
  have hbound : ∀ tr' a', ((app ι lib frames sch cap dir fs).after a).Run tr' a' →
      (∀ x ∈ tr', ¬ x.outer) → tr'.length ≤ 3 * ∑ k ∈ S, a.allowance k := by
    intro tr' a' h' hall
    have hgiven := appRun_given h' hall
    have hle := app_spends (h.append h') (S := S) fun k => (hS k).trans (not_congr (hgiven k).1).symm
    have hlen : tr'.countP (fun x => ¬ x.outer) = tr'.length :=
      List.countP_eq_length.mpr fun x hx => decide_eq_true (hall x hx)
    have hsum : ∑ k ∈ S, a'.allowance k = ∑ k ∈ S, a.allowance k :=
      Finset.sum_congr rfl fun k _ => (hgiven k).2
    rw [hsum, List.countP_append, hlen] at hle
    omega
  obtain ⟨tr', a', h', hall, hquiet⟩ := System.settles hbound
  exact ⟨tr', a', h', hall, fun x t hs => Classical.not_not.mp (hquiet x t hs)⟩

theorem app_settles_file : ∃ (tr : List (AppEvent Unit sampleSchema)) (a : App Unit sampleSchema),
    (app Unit fileLib sampleFrames sampleSchema 1 sampleMgr.mainAssetDir fun _ => none).Run tr a ∧
    tr.length = 2 ∧ ∃ tr' a', ((app Unit fileLib sampleFrames sampleSchema 1 sampleMgr.mainAssetDir
      fun _ => none).after a).Run tr' a' ∧ a'.Quiet fileLib sampleFrames := by
  have h0 := System.Run.start (M := app Unit fileLib sampleFrames sampleSchema 1
    sampleMgr.mainAssetDir fun _ => none) (s := ⟨fun _ => none, _⟩) ⟨fun _ => rfl, rfl⟩
  have hopen : DaemonOpened fileLib sampleSchema fileGreeted := .greeted (unused_create 10 10)
  have h1 := h0.next (a := AppEvent.opened ()) (.greeted rfl hopen rfl
    (.served (.call ⟨rfl, rfl⟩) (.elsewhere trivial) trivial))
  have h2 := h1.next (a := AppEvent.connection () (.client (.push fileRequest)))
    (.connection rfl (.client (.push rfl (by decide)) nofun) nofun)
  obtain ⟨_, tr', a', h', _, hquiet⟩ := app_settles h2
  exact ⟨_, _, h2, rfl, tr', a', h', hquiet⟩

end Acord
