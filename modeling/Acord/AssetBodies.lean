import Acord.AssetContent
import Acord.AssetOutside
import Acord.GetSyncBody

/-! Downloads over a network that may fail at any time: the chunks the asset manager gets of
`get_sync`, and what is in the files it makes of them. -/

namespace Acord
open Ac AssetDir RequestLoop Iteration Transition

def SyncGenerator.results {σ : Type} (resume : Producer σ) (buffers : Nat → List UInt8) :
    Nat → Nat → SyncGenerator σ → Option (List (Except Exn (List UInt8)))
  | m, i, g =>
    if g.done then some []
    else
      match m with
      | 0 => none
      | m + 1 =>
        match g.getNextChunk resume (buffers i) with
        | (.error e, _) => some [.error e]
        | (.ok chunk, g) => (results resume buffers m (i + 1) g).map (.ok chunk :: ·)

variable {lib : HttpLib} {S : Type}

/-- What a download gets of `get_sync`, given up after `n` requests and `m` chunks. -/
def fetchChunks (net : Str → HttpWorld lib S) (buffers : Nat → List UInt8) (n m : Nat) (url : Str)
    (world : S) : Option (Except Exn (List (Except Exn (List UInt8)))) :=
  match getSync net n url world with
  | none => none
  | some (.error e) => some (.error e)
  | some (.ok g) => (g.results (Body.resume net) buffers m 0).map .ok

/-- What the library promises of reading a response, whose body has a length or comes in chunks,
over a connection that may fail at any time: `Sends w c B` says that the server is sending the body
`B` on the connection `c`, and `Holds w c buf p R` that `R` is still to be read of it. -/
structure ReadsWhole (W : HttpWorld lib S) (Sends : S → lib.Conn → List UInt8 → Prop)
    (Holds : S → lib.Conn → List UInt8 → lib.Parser → List UInt8 → Prop) : Prop where
  header : ∀ {w c buf p w'}, W.answer w (.readHeader c []) = (.ok (buf, p), w') →
    lib.location p = none → lib.result p = 200 →
    ∃ B, Sends w c B ∧ Holds w' c buf p B ∧ (lib.isDone p = true → B = [])
  read : ∀ {w c buf p R size r w'}, Holds w c buf p R → lib.isDone p = false →
    W.answer w (.read c buf p size) = (r, w') →
    (∃ e, r.ec = some (.other e)) ∨
      ∃ R', R = r.moved ++ R' ∧ r.moved.length ≤ size ∧ Holds w' c r.buf r.parser R' ∧
        (lib.isDone r.parser = true → R' = [])

variable {net : Str → HttpWorld lib S} {Sends : Str → S → lib.Conn → List UInt8 → Prop}
  {Holds : S → lib.Conn → List UInt8 → lib.Parser → List UInt8 → Prop}
  {buffers : Nat → List UInt8} {b : Body lib S} {q : Requesting S} {url : Str} {B R : List UInt8}

def Leads (net : Str → HttpWorld lib S) (Sends : Str → S → lib.Conn → List UInt8 → Prop)
    (url : Str) (B : List UInt8) : Prop :=
  ∃ n w q stream, iter (hopStep net) n ⟨url, [], w⟩ = .inl q ∧
    ((sendRequest lib q.url).run (net q.url) q.world).outcome = .ret stream ∧
    Sends q.url ((sendRequest lib q.url).run (net q.url) q.world).world stream.conn B

theorem hop_response {stream : HttpStream lib} {buf : List UInt8} {p : lib.Parser}
    (h : (hopRun net q).outcome = .ret (.response stream buf p)) :
    ((sendRequest lib q.url).run (net q.url) q.world).outcome = .ret stream ∧
    (net q.url).answer ((sendRequest lib q.url).run (net q.url) q.world).world
      (.readHeader stream.conn []) = (.ok (buf, p), (hopRun net q).world) ∧
    lib.location p = none ∧ lib.result p = 200 := by
  unfold hopRun hop at h ⊢
  obtain ⟨stream', hsent, hread⟩ := Prog.run_bind_inv h
  rw [Prog.run_bind_ret hsent, hsent]
  generalize ((sendRequest lib q.url).run (net q.url) q.world).world = w at hread ⊢
  simp only [HttpStream.readHeader, Prog.call_bind, Prog.run_call, clear] at hread ⊢
  cases ha : (net q.url).answer w (.readHeader stream'.conn []) with
  | mk r w' =>
    rw [ha] at hread
    cases r with
    | error e => cases hread
    | ok header =>
      obtain ⟨buf', p'⟩ := header
      simp only [Prog.ofExcept_ok, Prog.ret_bind] at hread ⊢
      cases hloc : lib.location p' with
      | some loc =>
        simp only [hloc] at hread
        cases hread
      | none =>
        simp only [hloc] at hread ⊢
        split at hread
        · cases hread
        · next hok =>
          obtain ⟨rfl, rfl, rfl⟩ := Hop.response.inj (Outcome.ret.inj hread)
          refine ⟨rfl, ?_, hloc, not_not.mp hok⟩
          rw [if_neg hok]
          exact ha

theorem hopStep_sends (hr : ReadsWhole (net q.url) (Sends q.url) Holds)
    (h : hopStep net q = .inr (.ret b)) :
    ∃ stream B, ((sendRequest lib q.url).run (net q.url) q.world).outcome = .ret stream ∧
      Sends q.url ((sendRequest lib q.url).run (net q.url) q.world).world stream.conn B ∧
      b.url = q.url ∧ Holds b.world b.stream.conn b.buf b.parser B ∧
      (lib.isDone b.parser = true → B = []) := by
  unfold hopStep at h
  cases hout : (hopRun net q).outcome with
  | throw e =>
    rw [hout] at h
    cases h
  | crash =>
    rw [hout] at h
    cases h
  | ret hop =>
    rw [hout] at h
    cases hop with
    | redirect url buf => cases h
    | response stream buf p =>
      obtain rfl := Outcome.ret.inj (Sum.inr.inj h)
      obtain ⟨hsent, ha, hloc, hok⟩ := hop_response hout
      obtain ⟨B, hsends, hholds, hdone⟩ := hr.header ha hloc hok
      exact ⟨stream, B, hsent, hsends, rfl, hholds, hdone⟩

theorem iter_last {n : Nat} {q₀ : Requesting S} (h : iter (hopStep net) n q₀ = .inr (.ret b)) :
    ∃ m q, iter (hopStep net) m q₀ = .inl q ∧ hopStep net q = .inr (.ret b) := by
  induction n with
  | zero => cases h
  | succ n ih =>
    cases hn : iter (hopStep net) n q₀ with
    | inr r =>
      have hr := iter_ended hn 1
      rw [h] at hr
      obtain rfl := Sum.inr.inj hr
      exact ih hn
    | inl q => exact ⟨n, q, hn, (iter_succ hn).symm.trans h⟩

theorem resume_whole (buffer : List UInt8) (hr : ReadsWhole (net b.url) (Sends b.url) Holds)
    (hh : Holds b.world b.stream.conn b.buf b.parser R) (hd : lib.isDone b.parser = false) :
    (∃ chunk e, b.resume net buffer = (chunk, .threw e)) ∨
    ∃ c R' b', R = c ++ R' ∧ b.resume net buffer = (c, Body.loop b') ∧ b'.url = b.url ∧
      Holds b'.world b'.stream.conn b'.buf b'.parser R' ∧ (lib.isDone b'.parser = true → R' = []) := by
  -- each read of the loop fails, or moves bytes of the body and leaves the others
  cases ha : (net b.url).answer b.world
      (.read b.stream.conn b.buf b.parser buffer.length) with
  | mk r w =>
    by_cases hec : ∃ e, r.ec = some (.other e)
    · obtain ⟨e, hec⟩ := hec
      left
      unfold Body.resume
      rw [ha]
      simp only [hec]
      exact ⟨_, e, rfl⟩
    · obtain ⟨R', hR, _, hh', hdone⟩ := (hr.read hh hd ha).resolve_left hec
      right
      refine ⟨r.moved, R', { b with buf := r.buf, parser := r.parser, world := w }, hR, ?_, rfl,
        hh', hdone⟩
      apply resume_chunk ha
      cases h : r.ec with
      | none => exact .inl rfl
      | some ec =>
        cases ec with
        | needBuffer => exact .inr rfl
        | other e => exact absurd ⟨e, h⟩ hec

def Holding (Holds : S → lib.Conn → List UInt8 → lib.Parser → List UInt8 → Prop)
    (g : SyncGenerator (Body lib S)) (R : List UInt8) : Prop :=
  g.exception = none ∧ (g.handle = none → R = []) ∧ ∀ b, g.handle = some b →
    Holds b.world b.stream.conn b.buf b.parser R ∧ lib.isDone b.parser = false

variable {g : SyncGenerator (Body lib S)}

theorem holding_loop (he : g.exception = none)
    (hh : Holds b.world b.stream.conn b.buf b.parser R) (hdone : lib.isDone b.parser = true → R = []) :
    Holding Holds (g.land b.loop) R := by
  unfold Body.loop
  split
  next hd => exact ⟨he, fun _ => hdone hd, nofun⟩
  next hd =>
    refine ⟨he, nofun, fun b' hb => ?_⟩
    obtain rfl := Option.some.inj hb
    exact ⟨hh, by simpa using hd⟩

theorem loop_quiet (b : Body lib S) (e : Exn) : b.loop ≠ .threw e := by
  intro he
  unfold Body.loop at he
  split at he
  · cases he
  · cases he

theorem results_whole (hr : ∀ url, ReadsWhole (net url) (Sends url) Holds) {m i : Nat}
    {chunks : List (List UInt8)} (hg : Holding Holds g R)
    (h : g.results (Body.resume net) buffers m i = some (chunks.map .ok)) : chunks.flatten = R := by
  induction m generalizing g i R chunks with
  | zero =>
    unfold SyncGenerator.results at h
    split at h
    next hdone =>
      obtain rfl := List.map_eq_nil_iff.mp (Option.some.inj h).symm
      exact (hg.2.1 (Option.isNone_iff_eq_none.mp hdone)).symm
    next => cases h
  | succ m ih =>
    obtain ⟨he, hend, hopen⟩ := hg
    unfold SyncGenerator.results at h
    cases hb : g.handle with
    | none =>
      simp only [SyncGenerator.done, hb, Option.isNone_none, if_true, Option.some.injEq] at h
      obtain rfl := List.map_eq_nil_iff.mp h.symm
      exact (hend hb).symm
    | some b =>
      simp only [SyncGenerator.done, hb, Option.isNone_some, Bool.false_eq_true, if_false] at h
      obtain ⟨hh, hd⟩ := hopen b hb
      rcases resume_whole (buffers i) (hr b.url) hh hd with
        ⟨chunk, e, hres⟩ | ⟨c, R', b', rfl, hres, _, hh', hdone⟩
      · -- the call passes the exception on, and no list of chunks ends with one
        have hthrown : g.getNextChunk (Body.resume net) (buffers i) =
            (.error e, SyncGenerator.land { g with chunkBuf := chunk } (.threw e)) := by
          simp only [SyncGenerator.getNextChunk, hb, hres, SyncGenerator.land,
            SyncGenerator.rethrowIfException]
        rw [hthrown] at h
        cases chunks with
        | nil => cases h
        | cons c cs => cases h
      · rw [getNextChunk_resumed hb he hres (loop_quiet b')] at h
        obtain ⟨rs, hrs, hcons⟩ := Option.map_eq_some_iff.mp h
        cases chunks with
        | nil => cases hcons
        | cons c' cs =>
          obtain ⟨hc, rfl⟩ := List.cons.inj hcons
          obtain rfl := Except.ok.inj hc
          have hheld : Holding Holds (SyncGenerator.land { g with chunkBuf := c } b'.loop) R' :=
            holding_loop he hh' hdone
          exact congrArg (c ++ ·) (ih hheld hrs)

theorem fetched_whole (hr : ∀ url, ReadsWhole (net url) (Sends url) Holds) {n m : Nat} {w : S}
    {chunks : List (List UInt8)}
    (h : fetchChunks net buffers n m url w = some (.ok (chunks.map .ok))) :
    Leads net Sends url chunks.flatten := by
  unfold fetchChunks getSync at h
  cases hit : iter (hopStep net) n ⟨url, [], w⟩ with
  | inl q =>
    rw [hit] at h
    cases h
  | inr o =>
    rw [hit] at h
    cases o with
    | throw e => cases h
    | crash => cases h
    | ret b =>
      obtain ⟨k, q, hk, hlast⟩ := iter_last hit
      obtain ⟨stream, B, hsent, hsends, hurl, hh, hdone⟩ := hopStep_sends (hr q.url) hlast
      have hcreate : SyncGenerator.create (lib.contentLength b.parser) b.loop =
          .ok (SyncGenerator.land ⟨lib.contentLength b.parser, [], none, none⟩ b.loop) := by
        unfold Body.loop
        split <;> rfl
      simp only [hcreate] at h
      obtain ⟨rs, hrs, hrs'⟩ := Option.map_eq_some_iff.mp h
      obtain rfl := Except.ok.inj hrs'
      have hflat := results_whole hr (holding_loop rfl hh hdone) hrs
      exact ⟨k, w, q, stream, hk, hsent, hflat ▸ hsends⟩

/-! What the asset manager makes of it: `body v B` says that the web may answer a request for `v`
with `B`. -/

section
variable {body : Str → List UInt8 → Prop} {dir : AssetDir} {fs₀ : Fs} {s t : AssetMgr} {n : Node}
  {fs : Fs} {o : Outcomes} {u p : Str}

/-- The file was there at first, or is the whole of an answer to a request for a URL of its
name. -/
def Whole (body : Str → List UInt8 → Prop) (dir : AssetDir) (fs₀ : Fs) (f : Str) (n : Node) : Prop :=
  fs₀ (dir.target f) = some n ∨ ∃ v, fileKey v = f ∧ body v n.data

def WholeFiles (body : Str → List UInt8 → Prop) (dir : AssetDir) (fs₀ fs : Fs) : Prop :=
  ∀ f n, slash ∉ f → fs (dir.target f) = some n → n.regular = true → Whole body dir fs₀ f n

structure WholeInv (body : Str → List UInt8 → Prop) (dir : AssetDir) (fs₀ : Fs) (s : AssetMgr) :
    Prop where
  cache : CacheInv s
  mainAssetDir : s.mainAssetDir = dir
  files : WholeFiles body dir fs₀ s.fs

def WholePath (body : Str → List UInt8 → Prop) (fs₀ : Fs) (s : AssetMgr) (u p : Str) : Prop :=
  p = [] ∨ (p = s.targetPath u ∧
    ∃ n, s.fs.lookup p = some n ∧ n.regular = true ∧ Whole body s.mainAssetDir fs₀ (fileKey u) n)

def FetchesWhole (body : Str → List UInt8 → Prop) (u : Str) (o : Outcomes) : Prop :=
  ∀ chunks, Completes o chunks → Lossless o chunks ∧ body u chunks.flatten

structure Renewed (body : Str → List UInt8 → Prop) (s t : AssetMgr) : Prop where
  looked : Looked s t
  files : WholeFiles body s.mainAssetDir s.fs t.fs

theorem WholeFiles.refl (body : Str → List UInt8 → Prop) (dir : AssetDir) (fs : Fs) :
    WholeFiles body dir fs fs := fun _ _ _ hn _ => .inl hn

theorem WholeFiles.trans {fs fs' : Fs} (h : WholeFiles body dir fs₀ fs)
    (h' : WholeFiles body dir fs fs') : WholeFiles body dir fs₀ fs' := by
  intro f n hf hn hreg
  rcases h' f n hf hn hreg with hold | hnew
  · exact h f n hf hold hreg
  · exact .inr hnew

theorem Renewed.trans {v : AssetMgr} (h : Renewed body s t) (h' : Renewed body t v) :
    Renewed body s v where
  looked := h.looked.trans h'.looked
  files := h.files.trans (h.looked.mainAssetDir ▸ h'.files)

theorem holdsFile_target (h : HoldsFile fs (dir.target (Fs.getFileName u))) :
    ∃ n, fs.lookup (dir.target (Fs.getFileName u)) = some n ∧ n.regular = true ∧
      fs (dir.target (fileKey u)) = some n := by
  obtain ⟨n, hn, hreg⟩ := h
  refine ⟨n, hn, hreg, ?_⟩
  rw [lookup_target (Fs.slash_notMem_getFileName u)] at hn
  split at hn
  next =>
    obtain rfl := Option.some.inj hn
    exact absurd hreg (by decide)
  next => exact hn

theorem WholeInv.path (hi : WholeInv body dir fs₀ s) (hp : FilePath s u p) :
    WholePath body fs₀ s u p := by
  obtain rfl := hi.mainAssetDir
  refine hp.imp_right ?_
  rintro ⟨rfl, hf⟩
  obtain ⟨n, hn, hreg, hkey⟩ := holdsFile_target hf
  exact ⟨rfl, n, hn, hreg, hi.files _ n (slash_notMem_fileKey u) hkey hreg⟩

theorem WholePath.renewed (h : Renewed body s t) (hp : WholePath body fs₀ s u p) :
    WholePath body fs₀ t u p := by
  refine hp.imp_right ?_
  rintro ⟨rfl, n, hn, hreg, hwhole⟩
  have hheld : HoldsFile s.fs (s.targetPath u) := ⟨n, hn, hreg⟩
  have hfile := h.looked.file u hheld
  obtain ⟨m, hm, hmreg, hmkey⟩ := holdsFile_target hfile
  obtain ⟨n', hn', _, hkey⟩ := holdsFile_target hheld
  obtain rfl := Option.some.inj (hn.symm.trans hn')
  refine ⟨(h.looked.targetPath u).symm, m, hm, hmreg, ?_⟩
  rw [h.looked.mainAssetDir]
  rcases h.files _ m (slash_notMem_fileKey u) hmkey hmreg with hold | hnew
  · obtain rfl := Option.some.inj (hkey.symm.trans hold)
    exact hwhole
  · exact .inr hnew

theorem WholeFiles.scratch {fs fs' : Fs} (h : WholeFiles body dir fs₀ fs) (hs : Scratch dir fs fs') :
    WholeFiles body dir fs₀ fs' := by
  -- only directories are made outside the download directory before the rename
  intro f n hf hn hreg
  rcases hs _ fun g _ => target_ne_dlPath dir hf with e | ⟨_, _, hd⟩
  · exact h f n hf (e ▸ hn) hreg
  · obtain rfl := Option.some.inj (hd.symm.trans hn)
    exact absurd hreg (by decide)

theorem WholeFiles.downloaded (hi : WholeFiles body s.mainAssetDir fs₀ s.fs)
    (ho : FetchesWhole body u o) (h : Downloaded o u s t) :
    WholeFiles body s.mainAssetDir fs₀ t.fs := by
  obtain ⟨chunks, fs₁, m, hc, _, hscratch, _, hdata, _, hfs⟩ := h.moved
  obtain ⟨hl, hbody⟩ := ho chunks hc
  have hcut : cStr (s.targetPath u) = s.mainAssetDir.target (fileKey u) := cStr_target _ _
  intro f n hf hn hreg
  rw [hfs] at hn
  by_cases he : f = fileKey u
  · rw [he, ← hcut, Fs.put_same] at hn
    obtain rfl := Option.some.inj hn
    refine .inr ⟨u, he.symm, ?_⟩
    rw [hdata, stored_iff.mpr hl]
    exact hbody
  · rw [Fs.put_other (fun h => he ((target_inj _).mp (h.trans hcut)))] at hn
    exact hi.scratch hscratch f n hf hn hreg

theorem makeAvailable_whole (hi : WholeFiles body s.mainAssetDir fs₀ s.fs)
    (ho : FetchesWhole body u o) :
    WholeFiles body s.mainAssetDir fs₀ (s.makeAvailable o u).2.fs := by
  rcases makeAvailable_cases o u s with ⟨p, hp, hm⟩ | ⟨_, _, hm⟩ | ⟨_, _, hd⟩
  · rw [hm]
    exact hi
  · rw [hm]
    exact hi
  · rcases hd with ⟨e, hm, hfail⟩ | ⟨_, hm, hfail, _⟩ | ⟨hm, _, hdone⟩
    · rw [hm]
      exact hi.scratch hfail.scratch
    · rw [hm]
      exact hi.scratch hfail.scratch
    · rw [hm]
      have hfiles := hi.downloaded ho hdone
      exact hfiles

theorem wholeRule (body : Str → List UInt8 → Prop) (dir : AssetDir) (fs₀ : Fs) :
    UrlRule (FetchesWhole body) (WholeInv body dir fs₀) (Renewed body) (WholePath body fs₀) where
  refl s := ⟨.refl s, .refl body _ _⟩
  trans := Renewed.trans
  stable := WholePath.renewed
  serve := by
    intro o u s ho hi
    obtain ⟨hcache, hlooked, hfile⟩ := makeAvailable_file o u hi.cache
    obtain rfl := hi.mainAssetDir
    have hinv : WholeInv body s.mainAssetDir fs₀ (s.makeAvailable o u).2 :=
      ⟨hcache, hlooked.mainAssetDir, makeAvailable_whole hi.files ho⟩
    have hnew := makeAvailable_whole (.refl body s.mainAssetDir s.fs) ho
    exact ⟨hinv, ⟨hlooked, hnew⟩, fun p hp => hinv.path (hfile p hp)⟩

theorem WholeInv.construct (hx : FilesExact dir fs₀) :
    WholeInv body dir fs₀ (.construct dir fs₀) :=
  ⟨.construct hx, rfl, .refl body dir fs₀⟩

end

/-- What the calls for a URL come to on a disk that loses no byte, when what is downloaded is what
`get_sync` makes of the network. -/
structure Fetched (net : Str → HttpWorld lib S) (url : Str) (o : Outcomes) : Prop where
  lossless : ∀ chunks, Completes o chunks → Lossless o chunks
  chunks : ∃ buffers n m w, fetchChunks net buffers n m url w = some o.getSync

theorem Fetched.whole (hr : ∀ url, ReadsWhole (net url) (Sends url) Holds) {o : Outcomes}
    (h : Fetched net url o) : FetchesWhole (Leads net Sends) url o := by
  intro chunks hc
  obtain ⟨buffers, n, m, w, hfetch⟩ := h.chunks
  rw [hc] at hfetch
  exact ⟨h.lossless chunks hc, fetched_whole hr hfetch⟩

/-- Whatever the connections do, and whichever calls fail, on a disk that loses no byte: each regular
file directly in the asset directory was there at first, or is the whole of a body that a server
sent for a URL of its name; and these are the files that replies name. -/
theorem assets_whole {frames : FrameLib} {dir : AssetDir} {fs : Fs} {tr : List AssetEvent}
    {sv : AssetService} (hr : ∀ url, ReadsWhole (net url) (Sends url) Holds)
    (hx : FilesExact dir fs)
    (h : ((assetService frames dir fs).guard (PolledWith (Fetched net))).Run tr sv) :
    WholeFiles (Leads net Sends) dir fs sv.mgr.fs ∧
      ∀ i cmd reply, sv.sessions i = .replying cmd reply →
        RepliesWith (WholePath (Leads net Sends) fs) sv.mgr cmd reply := by
  have hguard : ((assetService frames dir fs).guard
      (PolledWith (FetchesWhole (Leads net Sends)))).Run tr sv := by
    apply h.guard_mono
    intro s e he
    cases e with
    | polled i cmd os => exact fun i url hurl => (he i url hurl).whole hr
    | pushed | closed => trivial
  have hi := (wholeRule (Leads net Sends) dir fs).run (.construct hx) hguard
  exact ⟨hi.mgr.files, hi.replies⟩

/-! A web on which the connections for some URLs break before the first byte of the body is
read. -/

def connectionReset : Exn := .error (lit "connection reset")

def breakingNet (web : Str → WebResponse) (up : Str → Bool) (url : Str) :
    HttpWorld webLib WebLeft where
  answer left
    | .read _ buf parser size =>
      if up url then webAnswer (web url) left (.read ([], []) buf parser size)
      else (⟨buf, parser, [], some (.other connectionReset)⟩, left)
    | op => webAnswer (web url) left op

def WebSends (left : WebLeft) (_ : Str × Str) (B : List UInt8) : Prop := left.flatten = B

theorem breakingNet_reads (web : Str → WebResponse) (up : Str → Bool) (url : Str) :
    ReadsWhole (breakingNet web up url) WebSends WebHolds where
  header := by
    intro left c buf p left' ha _ _
    obtain ⟨hheader, rfl⟩ := Prod.mk.inj ha
    obtain ⟨rfl, rfl⟩ := Prod.mk.inj (Except.ok.inj hheader)
    refine ⟨_, rfl, ?_, ?_⟩
    · cases left with
      | nil => rfl
      | cons piece left => rfl
    · intro hdone
      simp only [webLib, Bool.and_eq_true, List.isEmpty_iff] at hdone
      exact hdone.2
  read := by
    rintro left c buf p R size r left' rfl _ ha
    unfold breakingNet at ha
    by_cases hup : up url = true
    · right
      simp only [hup, if_true] at ha
      obtain ⟨rfl, rfl⟩ := Prod.mk.inj ha
      obtain ⟨hall, hle, hend⟩ := webRead_spec buf left size
      refine ⟨_, hall, hle, rfl, fun hdone => ?_⟩
      rcases hend with ⟨hbuf, hleft⟩ | ⟨hbuf, _⟩
      · simp [hbuf, hleft]
      · exact absurd (List.isEmpty_iff.mp hdone) hbuf
    · left
      simp only [hup, Bool.false_eq_true, if_false] at ha
      obtain ⟨rfl, rfl⟩ := Prod.mk.inj ha
      exact ⟨_, rfl⟩

def twoFiles : Str → WebResponse := fun _ => ⟨none, 200, true, [[1, 2], [3]]⟩

def firstUp (url : Str) : Bool := url = lit "http://h/1"

def fetchedOutcomes (r : List (Except Exn (List UInt8))) : Outcomes :=
  ⟨true, true, true, true, .ok r, fun _ => 2, 0, true⟩

def twoOutcomes (i : Nat) : Outcomes :=
  if i = 0 then fetchedOutcomes [.ok [1, 2], .ok [3]] else fetchedOutcomes [.error connectionReset]

def twoUrls : List Str := [lit "http://h/1", lit "http://h/2"]

theorem twoOutcomes_fetched :
    AllOutcomes (Fetched (breakingNet twoFiles firstUp)) (.strings twoUrls) twoOutcomes := by
  intro i url hi
  have hurl := Dict.index_strings_str hi
  match i with
  | 0 =>
    obtain rfl := Option.some.inj hurl
    refine ⟨fun chunks hc => ?_, fun _ => [0, 0], 1, 2, [], rfl⟩
    obtain rfl : [[1, 2], [3]] = chunks := Completes.unique (o := twoOutcomes 0) rfl hc
    exact ⟨⟨by decide, by decide, trivial⟩, .inl rfl⟩
  | 1 =>
    obtain rfl := Option.some.inj hurl
    refine ⟨fun chunks hc => ?_, fun _ => [0, 0], 1, 2, [], rfl⟩
    cases chunks with
    | nil => cases hc
    | cons => cases hc
  | i + 2 => cases hurl

theorem assets_whole_two : RepliesWith
    (WholePath (Leads (breakingNet twoFiles firstUp) fun _ => WebSends) fun _ => none)
    (sampleServed twoUrls twoOutcomes).mgr (urlsRequest twoUrls) (assetsFrame [lit "/a/1", []]) := by
  have hrun : ((assetService sampleFrames sampleMgr.mainAssetDir fun _ => none).guard
      (PolledWith (Fetched (breakingNet twoFiles firstUp)))).Run _ _ :=
    sampleServed_run trivial twoOutcomes_fetched
  have hx := FilesExact.empty sampleMgr.mainAssetDir
  exact (assets_whole (breakingNet_reads twoFiles firstUp) hx hrun).2 0 _ _ rfl

end Acord
