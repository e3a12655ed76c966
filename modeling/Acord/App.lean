import Acord.AssetAnswers
import Acord.AssetBodies
import Acord.DaemonFrames

/-! The server with all its clients: each has a connection of its own, with the coroutine that
serves it, and all of them share the asset manager, which downloads what they ask for. -/

namespace Acord
open Ac Channels RequestLoop Transition AssetBackend

variable {ι : Type} [DecidableEq ι] {sch : SchemaLib} {lib : DictLib} {frames : FrameLib}

structure App (ι : Type) (sch : SchemaLib) where
  conns : ι → Option (Daemon sch)
  backend : AssetBackend ι sch

inductive AppEvent (ι : Type) (sch : SchemaLib)
  | opened (k : ι)
  | coroutine (k : ι) (e : LocalEvent sch)
  | connection (k : ι) (e : DaemonEvent sch)
  | asset (e : AssetEvent)

namespace App
variable (a : App ι sch) (k : ι) (d : Daemon sch)

def setConn : App ι sch := { a with conns := Function.update a.conns k (some d) }

theorem setConn_self : (a.setConn k d).conns k = some d := Function.update_self _ _ _

theorem setConn_other {j : ι} (h : j ≠ k) : (a.setConn k d).conns j = a.conns j :=
  Function.update_of_ne h _ _

end App

/-- A call of a coroutine is one step of its connection and of what it shares with the others. One
that has pushed its state before `wsOpened` looked has made that call. -/
inductive AppStep (lib : DictLib) (frames : FrameLib) (sch : SchemaLib) :
    App ι sch → AppEvent ι sch → App ι sch → Prop
  | waiting {a : App ι sch} {k : ι} {d : Daemon sch} (new : a.conns k = none)
      (opened : DaemonOpened lib sch d) (due : d.log = []) :
      AppStep lib frames sch a (.opened k) (a.setConn k d)
  | greeted {a : App ι sch} {k : ι} {d : Daemon sch} {e : LocalEvent sch} {b : AssetBackend ι sch}
      (new : a.conns k = none) (opened : DaemonOpened lib sch d) (due : d.log = [e])
      (call : BackendStep frames sch a.backend (.client k e) b) :
      AppStep lib frames sch a (.opened k) ({ a with backend := b }.setConn k d)
  | coroutine {a : App ι sch} {k : ι} {d d' : Daemon sch} {e : LocalEvent sch}
      {b : AssetBackend ι sch} (at_ : a.conns k = some d) (step : DaemonStep lib sch d (.session e) d')
      (call : BackendStep frames sch a.backend (.client k e) b) :
      AppStep lib frames sch a (.coroutine k e) ({ a with backend := b }.setConn k d')
  | connection {a : App ι sch} {k : ι} {d d' : Daemon sch} {e : DaemonEvent sch}
      (at_ : a.conns k = some d) (step : DaemonStep lib sch d e d') (apart : ∀ x, e ≠ .session x) :
      AppStep lib frames sch a (.connection k e) (a.setConn k d')
  | asset {a : App ι sch} {e : AssetEvent} {b : AssetBackend ι sch}
      (step : BackendStep frames sch a.backend (.service e) b) :
      AppStep lib frames sch a (.asset e) { a with backend := b }

def app (ι : Type) [DecidableEq ι] (lib : DictLib) (frames : FrameLib) (sch : SchemaLib) (cap : Nat)
    (dir : AssetDir) (fs : Fs) : System (App ι sch) (AppEvent ι sch) where
  init a := (∀ k, a.conns k = none) ∧ (assetBackend ι frames sch cap dir fs).init a.backend
  step := AppStep lib frames sch

def AppServedWith (P : Str → Outcomes → Prop) (a : App ι sch) : AppEvent ι sch → Prop
  | .asset e => ServedWith P a.backend (.service e)
  | _ => True

def Agrees (b : AssetBackend ι sch) (k : ι) : Option (Daemon sch) → Prop
  | none => b.coro k = ⟨(acordRun sch).start, ⟨false, false⟩⟩ ∧ b.log k = []
  | some d => b.coro k = d.session ∧ b.log k = d.log

structure AppInv (lib : DictLib) (frames : FrameLib) (cap : Nat) (dir : AssetDir) (fs : Fs)
    (P : Str → Outcomes → Prop) (a : App ι sch) : Prop where
  daemons : ∀ k d, a.conns k = some d → ∃ tr, (daemon lib sch).Run tr d
  backend : ∃ tr, ((assetBackend ι frames sch cap dir fs).guard (ServedWith P)).Run tr a.backend
  agrees : ∀ k, Agrees a.backend k (a.conns k)

variable {cap : Nat} {dir : AssetDir} {fs : Fs} {P : Str → Outcomes → Prop} {a a' : App ι sch}
  {k : ι} {d d' : Daemon sch} {b : AssetBackend ι sch} {e : LocalEvent sch}

omit [DecidableEq ι] in
theorem Agrees.congr {c : Option (Daemon sch)} (h : Agrees a.backend k c)
    (hcoro : b.coro k = a.backend.coro k) (hlog : b.log k = a.backend.log k) : Agrees b k c := by
  unfold Agrees at h ⊢
  rw [hcoro, hlog]
  exact h

theorem AppInv.moved (h : AppInv lib frames cap dir fs P a) (hd : ∃ tr, (daemon lib sch).Run tr d)
    (hb : ∃ tr, ((assetBackend ι frames sch cap dir fs).guard (ServedWith P)).Run tr b)
    (hmine : b.coro k = d.session ∧ b.log k = d.log)
    (hothers : ∀ j, j ≠ k → b.coro j = a.backend.coro j ∧ b.log j = a.backend.log j) :
    AppInv lib frames cap dir fs P ({ a with backend := b }.setConn k d) := by
  refine ⟨fun j d' hj => ?_, hb, fun j => ?_⟩
  · by_cases hjk : j = k
    · subst hjk
      rw [App.setConn_self] at hj
      exact Option.some.inj hj ▸ hd
    · rw [App.setConn_other _ _ _ hjk] at hj
      exact h.daemons j d' hj
  · by_cases hjk : j = k
    · subst hjk
      rw [App.setConn_self]
      exact hmine
    · rw [App.setConn_other _ _ _ hjk]
      obtain ⟨hcoro, hlog⟩ := hothers j hjk
      exact (h.agrees j).congr hcoro hlog

theorem AppInv.call {s : Server localEffects Exn LocalEnv} (h : AppInv lib frames cap dir fs P a)
    (hd : ∃ tr, (daemon lib sch).Run tr d) (hs : (localSession sch).step (a.backend.coro k) e s)
    (hds : d.session = s) (hdl : d.log = a.backend.log k ++ [e])
    (call : BackendStep frames sch a.backend (.client k e) b) :
    AppInv lib frames cap dir fs P ({ a with backend := b }.setConn k d) := by
  obtain ⟨tr, hrun⟩ := h.backend
  obtain ⟨_, s', run, _, hcoro, hlog⟩ := call.client_log
  obtain rfl : s = s' := Loop.Step.unique hs run
  have hguard : ServedWith P a.backend (.client k e) := trivial
  apply h.moved hd ⟨_, hrun.next ⟨hguard, call⟩⟩
  · rw [hcoro, hlog, Function.update_self, Function.update_self, hds, hdl]
    exact ⟨rfl, rfl⟩
  · intro j hj
    rw [hcoro, hlog, Function.update_of_ne hj, Function.update_of_ne hj]
    exact ⟨rfl, rfl⟩

theorem step_session (hs : DaemonStep lib sch d (.session e) d') :
    (localSession sch).step d.session e d'.session ∧ d'.log = d.log ++ [e] := by
  cases hs with
  | session run => exact ⟨run, rfl⟩

theorem step_apart {e : DaemonEvent sch} (hs : DaemonStep lib sch d e d')
    (he : ∀ x, e ≠ .session x) : d'.session = d.session ∧ d'.log = d.log := by
  cases hs with
  | @session e => exact absurd rfl (he e)
  | client | server | providerPop | providerPush | drop => exact ⟨rfl, rfl⟩

theorem DaemonOpened.coroutine (h : DaemonOpened lib sch d) :
    (d.log = [] ∧ d.session = ⟨(acordRun sch).start, ⟨false, false⟩⟩) ∨
    (d.log = startEvents sch ∧ d.session = ⟨.ret true, ⟨false, false⟩⟩) := by
  cases h with
  | waiting => exact .inl ⟨rfl, rfl⟩
  | greeted => exact .inr ⟨rfl, rfl⟩

theorem AppInv.step {x : AppEvent ι sch} (h : AppInv lib frames cap dir fs P a)
    (hp : AppServedWith P a x) (hs : AppStep lib frames sch a x a') :
    AppInv lib frames cap dir fs P a' := by
  cases hs with
  | @waiting k d new opened due =>
    have hag := h.agrees k
    rw [new] at hag
    obtain ⟨hcoro, hlog⟩ := hag
    rcases opened.coroutine with ⟨_, hsession⟩ | ⟨hstarted, _⟩
    · exact h.moved ⟨_, .start opened⟩ h.backend ⟨hcoro.trans hsession.symm, hlog.trans due.symm⟩
        fun _ _ => ⟨rfl, rfl⟩
    · rw [due] at hstarted
      cases hstarted
  | @greeted k d e b new opened due call =>
    have hag := h.agrees k
    rw [new] at hag
    obtain ⟨hcoro, hlog⟩ := hag
    rcases opened.coroutine with ⟨hnone, _⟩ | ⟨hstarted, hsession⟩
    · rw [due] at hnone
      cases hnone
    · -- the call that was made is the first of the coroutine
      obtain rfl := List.head_eq_of_cons_eq (due.symm.trans hstarted)
      have hallow : localEnv.allow ⟨false, false⟩ (.push (sch.stateChange Schema.id)) Pushed.ok :=
        ⟨rfl, rfl⟩
      have hstep : (localSession sch).step (a.backend.coro k) _ ⟨.ret true, ⟨false, false⟩⟩ :=
        hcoro ▸ Loop.Step.call hallow
      exact h.call ⟨_, .start opened⟩ hstep hsession (by rw [due, hlog]; rfl) call
  | @coroutine k d d' e b at_ step call =>
    obtain ⟨tr, hrun⟩ := h.daemons k d at_
    have hag := h.agrees k
    rw [at_] at hag
    obtain ⟨hcoro, hlog⟩ := hag
    obtain ⟨hstep, hlog'⟩ := step_session step
    exact h.call ⟨_, hrun.next step⟩ (hcoro ▸ hstep) rfl (hlog ▸ hlog') call
  | @connection k d d' e at_ step apart =>
    obtain ⟨tr, hrun⟩ := h.daemons k d at_
    have hag := h.agrees k
    rw [at_] at hag
    obtain ⟨hsession, hlog⟩ := step_apart step apart
    exact h.moved ⟨_, hrun.next step⟩ h.backend ⟨hag.1.trans hsession.symm, hag.2.trans hlog.symm⟩
      fun _ _ => ⟨rfl, rfl⟩
  | @asset e b step =>
    obtain ⟨tr, hrun⟩ := h.backend
    obtain ⟨⟨hcoro, hlog, _⟩, _⟩ := step.service_same
    have hguard : ServedWith P a.backend (.service e) := hp
    refine ⟨h.daemons, ⟨_, hrun.next ⟨hguard, step⟩⟩, fun k => ?_⟩
    exact (h.agrees k).congr (congrFun hcoro k) (congrFun hlog k)

theorem app_inv {tr : List (AppEvent ι sch)}
    (h : ((app ι lib frames sch cap dir fs).guard (AppServedWith P)).Run tr a) :
    AppInv lib frames cap dir fs P a := by
  refine System.Run.invariant ?_ ?_ h
  · rintro a ⟨hnone, hb⟩
    refine ⟨fun k d hk => absurd (hnone k) (hk ▸ nofun), ⟨_, .start hb⟩, fun k => ?_⟩
    rw [hnone k]
    obtain ⟨conns, b⟩ := a
    obtain rfl := hb
    exact ⟨rfl, rfl⟩
  · intro a x a' hi hs
    exact hi.step hs.1 hs.2

theorem exchanges_whole {lib' : HttpLib} {S : Type} {net : Str → HttpWorld lib' S}
    {Sends : Str → S → lib'.Conn → List UInt8 → Prop}
    {Holds : S → lib'.Conn → List UInt8 → lib'.Parser → List UInt8 → Prop}
    {tr : List (AppEvent ι sch)} (hr : ∀ url, ReadsWhole (net url) (Sends url) Holds)
    (hx : FilesExact dir fs)
    (h : ((app ι lib frames sch cap dir fs).guard (AppServedWith (Fetched net))).Run tr a)
    (hk : a.conns k = some d) {xs : List (Exchange sch)} {rest : List (LocalEvent sch)}
    (hlog : d.log = startEvents sch ++ xs.flatMap Exchange.events ++ rest) :
    ∀ x ∈ xs, x.request.op = Schema.opMakeAssetsAvailable → ∃ us paths,
      sch.urls x.request.data = .ok us ∧
      x.reply = ⟨Schema.opMakeAssetsAvailable, .strings paths⟩ ∧
      List.Forall₂ (WholePath (Leads net Sends) fs a.backend.service.mgr) us paths := by
  have happ := app_inv h
  obtain ⟨tr', hbackend⟩ := happ.backend
  have hag := happ.agrees k
  rw [hk] at hag
  have hwhole : ((assetBackend ι frames sch cap dir fs).guard
      (ServedWith (FetchesWhole (Leads net Sends)))).Run tr' a.backend := by
    apply hbackend.guard_mono
    intro b e he
    cases e with
    | client => trivial
    | service e =>
      cases e with
      | polled i cmd os => exact fun i url hurl => (he i url hurl).whole hr
      | pushed | closed => trivial
  have hi := backend_inv (wholeRule (Leads net Sends) dir fs) (.construct hx) hwhole
  exact fun x hmem hop => hi.exchange (hag.2.trans hlog) hmem hop

/-- From one end to the other, in every interleaving of any number of clients, their connections,
the coroutines and the sessions of the asset manager, over a network any connection of which may
fail at any time, and a disk that loses no byte: what a client has read are the replies to the first
frames it wrote, in order, and its requests for assets were answered by one path for each of its own
URLs; such a path is empty, or that of a file that was there at first or is the whole of a body a
server sent for a URL of its name. -/
theorem app_serves_whole {lib' : HttpLib} {S : Type} {net : Str → HttpWorld lib' S}
    {Sends : Str → S → lib'.Conn → List UInt8 → Prop}
    {Holds : S → lib'.Conn → List UInt8 → lib'.Parser → List UInt8 → Prop}
    {tr : List (AppEvent ι sch)} (hr : ∀ url, ReadsWhole (net url) (Sends url) Holds)
    (hx : FilesExact dir fs)
    (h : ((app ι lib frames sch cap dir fs).guard (AppServedWith (Fetched net))).Run tr a)
    (hk : a.conns k = some d) (hinv : d.Inverts lib) :
    ∃ (xs : List (Exchange sch)) (pending : Option Ac.Frame),
      polledFrames d.log = xs.map Exchange.request ++ pending.toList ∧
      xs.map Exchange.request ++ pending.toList ++ d.providerRead <+: d.client.readStream.pushed ∧
      ((d.attached = false ∧ d.Told xs []) ∨
        ∃ f, pending = some f ∧ f.op = Schema.opLoadProvider ∧
          d.Told xs (loadedFrame :: d.providerWrote)) ∧
      ∀ x ∈ xs, x.request.op = Schema.opMakeAssetsAvailable → ∃ us paths,
        sch.urls x.request.data = .ok us ∧
        x.reply = ⟨Schema.opMakeAssetsAvailable, .strings paths⟩ ∧
        List.Forall₂ (WholePath (Leads net Sends) fs a.backend.service.mgr) us paths := by
  obtain ⟨tr', hdaemon⟩ := (app_inv h).daemons k d hk
  obtain ⟨xs, pending, hin, hpol, hpolled, htold⟩ := daemon_told hdaemon hinv
  refine ⟨xs, pending, hpol, hpolled, htold, ?_⟩
  rcases hin with rfl | ⟨rest, hlog⟩
  · exact nofun
  · exact exchanges_whole hr hx h hk hlog

/-! One client, that asks for one asset. -/

section
variable {Q : App ι sch → AppEvent ι sch → Prop} {tr : List (AppEvent ι sch)}

theorem run_connection {e : DaemonEvent sch}
    (h : ((app ι lib frames sch cap dir fs).guard Q).Run tr a) (hk : a.conns k = some d)
    (step : DaemonStep lib sch d e d') (apart : ∀ x, e ≠ .session x) (hq : Q a (.connection k e)) :
    ((app ι lib frames sch cap dir fs).guard Q).Run (tr ++ [.connection k e]) (a.setConn k d') :=
  h.next ⟨hq, .connection hk step apart⟩

theorem run_coroutine (h : ((app ι lib frames sch cap dir fs).guard Q).Run tr a)
    (hk : a.conns k = some d) (step : DaemonStep lib sch d (.session e) d')
    (call : BackendStep frames sch a.backend (.client k e) b) (hq : Q a (.coroutine k e)) :
    ((app ι lib frames sch cap dir fs).guard Q).Run (tr ++ [.coroutine k e])
      ({ a with backend := b }.setConn k d') :=
  h.next ⟨hq, .coroutine hk step call⟩

theorem run_asset {x : AssetEvent} (h : ((app ι lib frames sch cap dir fs).guard Q).Run tr a)
    (step : BackendStep frames sch a.backend (.service x) b) (hq : Q a (.asset x)) :
    ((app ι lib frames sch cap dir fs).guard Q).Run (tr ++ [.asset x]) { a with backend := b } :=
  h.next ⟨hq, .asset step⟩

end

def fileUrl : Str := lit "http://h/1"

def fileRequest : Ac.Frame := ⟨Schema.opMakeAssetsAvailable, .strings [fileUrl]⟩

def fileReply : Ac.Frame := ⟨Schema.opMakeAssetsAvailable, .strings [lit "/a/1"]⟩

def fileCbor (f : Ac.Frame) : List UInt8 :=
  let data := match f.data with
    | .array [.str s] => 0x81 :: shortText s
    | .str s => shortText s
    | _ => [0xF6]
  0xA2 :: shortText keyData ++ data ++ shortText keyOp ++ shortText f.op

def fileLib : DictLib where
  parse := sampleLib.parse
  dump := sampleLib.dump
  toCbor
    | .object [(_, .str op), (_, data)] => .ok (fileCbor ⟨op, data⟩)
    | _ => .error (.error (lit "type_error.317"))
  fromCbor b :=
    match [fileRequest, stateFrame, fileReply].find? fun f => fileCbor f == b with
    | some f => .ok (acToJson f)
    | none => .error (.error (lit "parse_error.110"))

theorem fileLib_inverts : ∀ f ∈ [fileRequest, stateFrame, fileReply], CborInverts fileLib f := by
  intro f hf
  refine ⟨fileCbor f, rfl, ?_⟩
  simp only [List.mem_cons, List.not_mem_nil, or_false] at hf
  rcases hf with rfl | rfl | rfl <;> rfl

def fileGreeted : Daemon sampleSchema where
  client := clientWsOpened fileLib (lit "/cbor") (.create 10) (.create 10)
  server := serverWsOpened fileLib (lit "/cbor") (greetingStream sampleSchema) (.create serverCap)
  session := ⟨.ret true, ⟨false, false⟩⟩
  attached := false
  log := startEvents sampleSchema
  providerRead := []
  providerWrote := []

def fileNet : Str → HttpWorld webLib WebLeft := breakingNet twoFiles firstUp

theorem file_fetched : AllOutcomes (Fetched fileNet) (.strings [fileUrl]) twoOutcomes := by
  intro i url hi
  apply twoOutcomes_fetched i url
  have hurl := Dict.index_strings_str hi
  match i with
  | 0 => exact hi
  | i + 1 => cases hurl

theorem app_served : ∃ tr a d, ((app Unit fileLib sampleFrames sampleSchema 1 sampleMgr.mainAssetDir
    fun _ => none).guard (AppServedWith (Fetched fileNet))).Run tr a ∧ a.conns () = some d ∧
    d.Inverts fileLib ∧ d.client.readStream.pushed = [fileRequest] ∧
    d.client.writeStream.popped = [stateFrame, fileReply] ∧ d.Resting ∧
    (d.client.readStream.closed = false ∧ d.client.writeStream.closed = false) ∧
    polledFrames d.log = [fileRequest] ∧
    ∀ i < a.backend.sessions, (a.backend.service.sessions i).Over := by
  have h0 := System.Run.start (M := (app Unit fileLib sampleFrames sampleSchema 1
    sampleMgr.mainAssetDir fun _ => none).guard (AppServedWith (Fetched fileNet)))
    (s := ⟨fun _ => none, _⟩) ⟨fun _ => rfl, rfl⟩
  have hopen : DaemonOpened fileLib sampleSchema fileGreeted := .greeted (unused_create 10 10)
  have h1 := h0.next (a := AppEvent.opened ()) ⟨trivial, .greeted rfl hopen rfl
    (.served (.call ⟨rfl, rfl⟩) (.elsewhere trivial) trivial)⟩
  have h2 := run_connection (k := ()) h1 rfl (.client (.push (f := fileRequest) rfl (by decide)) nofun)
    nofun trivial
  have h3 := run_connection (k := ()) h2 rfl
    (.client (.fireRead ⟨by decide, .inr (by simp)⟩) nofun) nofun trivial
  have h4 := run_connection (k := ()) h3 rfl (.client (.readTask (by decide)) nofun) nofun trivial
  have h5 := run_connection (k := ()) h4 rfl (e := .server (.wsReceived (.binary (fileCbor fileRequest))))
    (.server (.wsReceived (by decide)) (fun m hm => by cases hm; rfl) id) nofun trivial
  have h6 := run_coroutine (k := ()) (e := .request (Polled.frame fileRequest)) h5 rfl
    (.session (Loop.Step.request (L := acordRun sampleSchema) (r := Polled.frame fileRequest) rfl)
      (.polled (Eq.refl [_])))
    (.called (Loop.Step.request (L := acordRun sampleSchema) (r := Polled.frame fileRequest) rfl)
      (.elsewhere trivial) id) trivial
  have h7 := run_coroutine (k := ()) h6 rfl (.session (.call (r := Except.ok ()) trivial) .connect)
    (.called (.call trivial) .connected id) trivial
  have h8 := run_asset h7 (x := .pushed 0 (sampleFrames.stateChange Amgr.stateId))
    (.pushed (.greeted rfl) (by decide) rfl (by decide)) trivial
  have h9 := run_coroutine (k := ()) h8 rfl
    (.session (.call (r := Polled.frame (sampleFrames.stateChange Amgr.stateId)) nofun) .aioPoll)
    (.called (.call nofun) (.read (i := 0) rfl (Eq.refl [_])) id) trivial
  have h10 := run_coroutine (k := ()) h9 rfl (.session (.call (r := Pushed.ok) nofun) .aioPush)
    (.called (.call nofun) (.wrote (i := 0) rfl rfl (by decide)) id) trivial
  have h11 := run_asset h10 (x := .polled 0 (urlsRequest [fileUrl]) twoOutcomes)
    (.polled (.polled rfl) (by decide) (Eq.refl [_]) rfl) file_fetched
  have h12 := run_asset h11 (x := .pushed 0 (assetsFrame [lit "/a/1"]))
    (.pushed (.replied rfl) (by decide) rfl (by decide)) trivial
  have h13 := run_coroutine (k := ()) h12 rfl
    (.session (.call (r := Polled.frame (assetsFrame [lit "/a/1"])) nofun) .aioPoll)
    (.called (.call nofun) (.read (i := 0) rfl (Eq.refl [_])) id) trivial
  have hallow : localEnv.allow ⟨false, false⟩ (.push fileReply) Pushed.ok := ⟨rfl, rfl⟩
  have h14 := run_coroutine (k := ()) h13 rfl (.session (.call hallow) (.pushed rfl (by decide)))
    (.served (.call hallow) (.elsewhere trivial) trivial) trivial
  have h15 := run_connection (k := ()) h14 rfl (.server (.wsCompletedSend (by decide)) nofun id)
    nofun trivial
  have h16 := run_connection (k := ()) h15 rfl
    (e := .client (.wsReceived (.binary (fileCbor stateFrame))))
    (.client (.wsReceived (by decide)) fun m hm => by cases hm; rfl) nofun trivial
  have h17 := run_connection (k := ()) h16 rfl (e := .client (.pop stateFrame))
    (.client (.pop (Eq.refl [_])) nofun) nofun trivial
  have h18 := run_connection (k := ()) h17 rfl
    (e := .client (.wsReceived (.binary (fileCbor fileReply))))
    (.client (.wsReceived (by decide)) fun m hm => by cases hm; rfl) nofun trivial
  have h19 := run_connection (k := ()) h18 rfl (e := .client (.pop fileReply))
    (.client (.pop (Eq.refl [_])) nofun) nofun trivial
  have h20 := run_connection (k := ()) h19 rfl (e := .client .wsCompletedSend)
    (.client (.wsCompletedSend (by decide)) nofun) nofun trivial
  have h21 := run_connection (k := ()) h20 rfl (.server (.wsCompletedSend (by decide)) nofun id)
    nofun trivial
  have h22 := run_asset h21 (x := .closed 0) (.closed (.closed nofun) (by decide) ⟨rfl, rfl⟩) trivial
  have hup : ∀ f ∈ [fileRequest], CborInverts fileLib f :=
    fun f hf => fileLib_inverts f (List.mem_cons.mpr (.inl (List.mem_singleton.mp hf)))
  have hdown : ∀ f ∈ [stateFrame, fileReply], CborInverts fileLib f :=
    fun f hf => fileLib_inverts f (List.mem_cons_of_mem _ hf)
  refine ⟨_, _, _, h22, rfl, ⟨hup, hdown⟩, rfl, rfl, ⟨.of_counts rfl rfl rfl rfl rfl rfl,
    .of_counts rfl rfl rfl rfl rfl rfl, rfl, rfl, rfl, rfl, rfl⟩, ⟨rfl, rfl⟩, rfl, fun i hi => ?_⟩
  have hfirst : i = 0 := Nat.lt_one_iff.mp hi
  subst hfirst
  exact trivial

theorem app_serves_whole_file : ∃ (a : App Unit sampleSchema) (d : Daemon sampleSchema),
    a.conns () = some d ∧ d.client.writeStream.popped = [stateFrame, fileReply] ∧
    ∃ x : Exchange sampleSchema, x.request = fileRequest ∧ x.reply = fileReply ∧
      List.Forall₂ (WholePath (Leads fileNet fun _ => WebSends) (fun _ => none)
        a.backend.service.mgr) [fileUrl] [lit "/a/1"] := by
  obtain ⟨_, a, d, h, hk, hinv, _, hread, _, _, hone, _⟩ := app_served
  have hx := FilesExact.empty sampleMgr.mainAssetDir
  obtain ⟨xs, pending, hpol, _, htold, hwhole⟩ :=
    app_serves_whole (breakingNet_reads twoFiles firstUp) hx h hk hinv
  rw [hone] at hpol
  have htold : [stateFrame, fileReply] <+: stateFrame :: xs.map Exchange.reply := by
    rcases htold with ⟨_, htold⟩ | ⟨f, rfl, hop, _⟩
    · unfold Daemon.Told at htold
      rwa [hread, List.append_nil] at htold
    · cases xs with
      | nil =>
        obtain rfl := List.head_eq_of_cons_eq hpol
        exact absurd hop (by decide)
      | cons x xs => simp at hpol
  have hne : xs ≠ [] := by
    rintro rfl
    exact absurd htold.length_le (by decide)
  obtain ⟨x, rfl, _, hx⟩ := one_exchange hne hpol
  have hreply : fileReply = x.reply := by simpa using htold
  obtain ⟨us, paths, hu, hr, hfor⟩ := hwhole x (List.mem_singleton_self x) (hx ▸ rfl)
  rw [hx] at hu
  obtain rfl : [fileUrl] = us := Except.ok.inj hu
  obtain rfl : [lit "/a/1"] = paths := Dict.strings_inj (congrArg Frame.data (hreply.trans hr))
  exact ⟨a, d, hk, hread, x, hx, hreply.symm, hfor⟩

end Acord
