import Acord.AssetPaths

/-! One URL of a request: everything that finding or downloading an asset comes to, and when what
is published is complete. -/

namespace Acord
open Ac AssetDir

def AssetOp.Concerns (name : Str) : AssetOp → Prop
  | touch p | openFile p | getSync p => cStr (Fs.getFileName p) = name
  | rename src tgt => cStr (Fs.getFileName src) = name ∨ cStr (Fs.getFileName tgt) = name
  | found _ _ => False

def fileKey (url : Str) : Str := cStr (Fs.getFileName url)

variable {o : Outcomes} {url : Str} {s t u : AssetMgr} {chunks : List (List UInt8)}

theorem slash_notMem_fileKey (url : Str) : slash ∉ fileKey url :=
  cStr_noSlash (Fs.slash_notMem_getFileName url)

structure Calls (url : Str) (s t : AssetMgr) : Prop where
  mainAssetDir : t.mainAssetDir = s.mainAssetDir
  log : ∃ ops, t.log = s.log ++ ops ∧ ∀ op ∈ ops, (∀ u p, op ≠ .found u p) ∧
    ∀ name, op.Concerns name → name = fileKey url

namespace Calls

theorem refl (s : AssetMgr) : Calls url s s := ⟨rfl, [], by simp⟩

theorem trans (h : Calls url s t) (h' : Calls url t u) : Calls url s u := by
  obtain ⟨hd, ops, hl, hops⟩ := h
  obtain ⟨hd', ops', hl', hops'⟩ := h'
  refine ⟨hd'.trans hd, ops ++ ops', by rw [hl', hl, List.append_assoc], fun op hop => ?_⟩
  rcases List.mem_append.mp hop with hop | hop
  · exact hops op hop
  · exact hops' op hop

theorem record (s : AssetMgr) (op : AssetOp) (hf : ∀ u p, op ≠ .found u p)
    (hc : ∀ name, op.Concerns name → name = fileKey url) : Calls url s (s.record op) := by
  refine ⟨rfl, [op], rfl, fun op' hop => ?_⟩
  obtain rfl := List.mem_singleton.mp hop
  exact ⟨hf, hc⟩

theorem congr (h : Calls url s t) (hd : u.mainAssetDir = t.mainAssetDir) (hl : u.log = t.log) :
    Calls url s u := ⟨hd.trans h.mainAssetDir, hl ▸ h.log⟩

end Calls

theorem dlPath_fileKey (s : AssetMgr) (url : Str) :
    cStr (Fs.getFileName (s.dlPath url)) = fileKey url := by
  unfold AssetMgr.dlPath fileKey
  rw [getFileName_dlPath _ (Fs.slash_notMem_getFileName url)]

theorem targetPath_fileKey (s : AssetMgr) (url : Str) :
    cStr (Fs.getFileName (s.targetPath url)) = fileKey url := by
  unfold AssetMgr.targetPath fileKey
  rw [getFileName_target _ (Fs.slash_notMem_getFileName url)]

/-! The bytes that reach the file. -/

def Fits (room : Nat → Nat) : Nat → List (List UInt8) → Prop
  | _, [] => True
  | i, c :: cs => c.length ≤ room i ∧ Fits room (i + 1) cs

theorem downloadLoop_bad (room : Nat → Nat) (i : Nat) (data : List UInt8)
    (rs : List (Except Exn (List UInt8))) :
    (downloadLoop room i ⟨true, data⟩ rs).2 = ⟨true, data⟩ := by
  induction rs generalizing i with
  | nil => rfl
  | cons r rs ih =>
    cases r with
    | error e => rfl
    | ok c => exact ih (i + 1)

theorem downloadLoop_ok (room : Nat → Nat) (i : Nat) (ofs : Ofs)
    {rs : List (Except Exn (List UInt8))} :
    (downloadLoop room i ofs rs).1 = .ok () ↔
      ∃ chunks : List (List UInt8), rs = chunks.map .ok := by
  induction rs generalizing i ofs with
  | nil => exact ⟨fun _ => ⟨[], rfl⟩, fun _ => rfl⟩
  | cons r rs ih =>
    cases r with
    | error e =>
      refine ⟨fun h => (nomatch h), ?_⟩
      rintro ⟨_ | ⟨c, cs⟩, h⟩
      · simp at h
      · simp at h
    | ok c =>
      have hrest := ih (i + 1) (ofs.write (room i) c)
      refine hrest.trans ⟨?_, ?_⟩
      · rintro ⟨cs, rfl⟩
        exact ⟨c :: cs, rfl⟩
      · rintro ⟨_ | ⟨c', cs⟩, h⟩
        · simp at h
        · exact ⟨cs, by simpa using (List.cons.inj h).2⟩

theorem downloadLoop_data (room : Nat → Nat) (i : Nat) (data : List UInt8)
    (chunks : List (List UInt8)) :
    (Fits room i chunks ∧ (downloadLoop room i ⟨false, data⟩ (chunks.map .ok)).2.data =
      data ++ chunks.flatten) ∨
    (¬ Fits room i chunks ∧ (downloadLoop room i ⟨false, data⟩ (chunks.map .ok)).2.data.length <
      (data ++ chunks.flatten).length) := by
  -- a stream that is not bad holds all of the chunks, or has lost bytes of them
  induction chunks generalizing i data with
  | nil => exact .inl ⟨trivial, by simp [downloadLoop]⟩
  | cons c cs ih =>
    by_cases hc : c.length ≤ room i
    · have hw : Ofs.write ⟨false, data⟩ (room i) c = ⟨false, data ++ c⟩ := by simp [Ofs.write, hc]
      simp only [List.map_cons, downloadLoop, hw, Fits, hc, true_and, List.flatten_cons,
        ← List.append_assoc]
      exact ih (i + 1) (data ++ c)
    · -- from here on the stream is bad, and what it ignores is missing at the end
      have hw : Ofs.write ⟨false, data⟩ (room i) c = ⟨true, data ++ c.take (room i)⟩ := by
        simp [Ofs.write, hc]
      refine .inr ⟨fun h => hc h.1, ?_⟩
      simp only [List.map_cons, downloadLoop, hw, downloadLoop_bad, List.flatten_cons,
        List.length_append, List.length_take]
      omega

/-- No write and no close loses bytes of the chunks. -/
def Lossless (o : Outcomes) (chunks : List (List UInt8)) : Prop :=
  Fits o.room 0 chunks ∧ (o.closeLoss = 0 ∨ chunks.flatten = [])

def stored (o : Outcomes) (chunks : List (List UInt8)) : List UInt8 :=
  (downloadLoop o.room 0 ⟨false, []⟩ (chunks.map .ok)).2.close o.closeLoss

theorem stored_iff : stored o chunks = chunks.flatten ↔ Lossless o chunks := by
  unfold stored Ofs.close Lossless
  rcases downloadLoop_data o.room 0 [] chunks with ⟨hfit, hd⟩ | ⟨hfit, hd⟩
  · rw [List.nil_append] at hd
    rw [hd]
    simp only [hfit, true_and]
    constructor
    · intro h
      have hlen := congrArg List.length h
      rw [List.length_take] at hlen
      rw [← List.length_eq_zero_iff]
      omega
    · rintro (h | h)
      · rw [h, Nat.sub_zero, List.take_length]
      · rw [h, List.take_nil]
  · rw [List.nil_append] at hd
    refine iff_of_false (fun h => ?_) (fun h => hfit h.1)
    have hlen := congrArg List.length h
    rw [List.length_take] at hlen
    omega

theorem Scratch.target {dir : AssetDir} {fs fs' : Fs} {f : Str} (h : Scratch dir fs fs')
    (hf : slash ∉ f) (hne : f ≠ lit ".acord-dl") : fs' (dir.target f) = fs (dir.target f) := by
  rcases h _ fun g _ => target_ne_dlPath dir hf with e | ⟨hd, _⟩
  · exact e
  · rw [dlDir_eq_target, target_inj] at hd
    exact absurd hd hne

theorem Scratch.dlDir {dir : AssetDir} {fs fs' : Fs} {n : Node} (h : Scratch dir fs fs')
    (hn : fs dir.dlDir = some n) : fs' dir.dlDir = some n := by
  have hslash : slash ∉ lit ".acord-dl" := by decide
  have hne : ∀ g, slash ∉ g → dir.dlDir ≠ dir.dlPath g :=
    fun g _ => dlDir_eq_target dir ▸ target_ne_dlPath dir hslash
  rcases h dir.dlDir hne with e | ⟨_, hnone, _⟩
  · exact e.trans hn
  · simp [hn] at hnone

/-! What becomes of one URL. -/

def Completes (o : Outcomes) (chunks : List (List UInt8)) : Prop := o.getSync = .ok (chunks.map .ok)

theorem Completes.unique {chunks' : List (List UInt8)} (h : Completes o chunks)
    (h' : Completes o chunks') : chunks = chunks' := by
  have hinj : Function.Injective (List.map (Except.ok : List UInt8 → Except Exn (List UInt8))) :=
    List.map_injective_iff.mpr fun _ _ => Except.ok.inj
  exact hinj (Except.ok.inj (h.symm.trans h'))

structure Failed (url : Str) (s t : AssetMgr) : Prop where
  calls : Calls url s t
  cache : t.assetUrlToPath = s.assetUrlToPath
  scratch : Scratch s.mainAssetDir s.fs t.fs
  modes : SameModes s.mainAssetDir s.fs t.fs

def Blocked (fs : Fs) (s : AssetMgr) (url : Str) : Prop :=
  ∃ m, fs (s.mainAssetDir.target (fileKey url)) = some m ∧ m.directory = true

def touched (o : Outcomes) (url : Str) (s : AssetMgr) : Except Exn Unit × Fs :=
  Fs.touch o.mkdir o.fopen s.fs (s.dlPath url)

def Opens (o : Outcomes) (url : Str) (s : AssetMgr) : Prop :=
  (touched o url s).1 = .ok () ∧
    (Fs.ofstreamOpen o.ofsOpen (touched o url s).2 (s.dlPath url)).isSome

def openedFile (o : Outcomes) (url : Str) (s : AssetMgr) : Node :=
  ⟨fileMode ((touched o url s).2 (s.mainAssetDir.dlPath (fileKey url))), []⟩

/-- A finished download was moved to the target, where no directory was in the way. -/
structure Downloaded (o : Outcomes) (url : Str) (s t : AssetMgr) : Prop where
  calls : Calls url s t
  cache : t.assetUrlToPath = Function.update s.assetUrlToPath url (some (s.targetPath url))
  name : fileKey url ∉ Fs.dirNames
  openable : (openedFile o url s).openable = true
  file : ∃ chunks, Completes o chunks ∧ o.mv = true ∧ ¬ Blocked (touched o url s).2 s url ∧
    t.fs = ((touched o url s).2.put (s.dlPath url) none).put (s.targetPath url)
      (some { openedFile o url s with data := stored o chunks })

theorem touched_scratch (o : Outcomes) (url : Str) (s : AssetMgr) :
    Scratch s.mainAssetDir s.fs (touched o url s).2 :=
  (touch_dlPath o.mkdir o.fopen (Fs.slash_notMem_getFileName url)).1

theorem touched_modes (o : Outcomes) (url : Str) (s : AssetMgr) :
    SameModes s.mainAssetDir s.fs (touched o url s).2 :=
  (touch_dlPath o.mkdir o.fopen (Fs.slash_notMem_getFileName url)).2.1

theorem touched_dlDir (h : (touched o url s).1 = .ok ()) :
    ∃ d, (touched o url s).2 s.mainAssetDir.dlDir = some d ∧ d.directory = true :=
  (touch_dlPath o.mkdir o.fopen (Fs.slash_notMem_getFileName url)).2.2 h

theorem touched_openable (h : (touched o url s).1 = .ok ()) :
    (touched o url s).2.openable (s.dlPath url) = true := by
  unfold touched at h ⊢
  have hparent : Fs.parentPath (s.dlPath url) ≠ [] := by
    rw [AssetMgr.dlPath, parentPath_dlPath _ (Fs.slash_notMem_getFileName url)]
    exact dlDir_ne_nil _
  rcases Fs.touch_cases s.fs o.mkdir o.fopen hparent with
    ⟨e, he⟩ | ⟨_, _, _, he⟩ | ⟨_, _, _, ho, he⟩
  · simp [he] at h
  · simp [he] at h
  · rw [he]
    exact Fs.fopenAppend_openable ho

theorem scratch_dlPath {fs fs' : Fs} {n : Option Node} (s : AssetMgr) (url : Str)
    (h : Scratch s.mainAssetDir fs fs') : Scratch s.mainAssetDir fs (fs'.put (s.dlPath url) n) :=
  h.put (Fs.slash_notMem_getFileName url)

theorem cStr_dlPath_url (s : AssetMgr) (url : Str) :
    cStr (s.dlPath url) = s.mainAssetDir.dlPath (fileKey url) := cStr_dlPath _ _

theorem cStr_targetPath (s : AssetMgr) (url : Str) :
    cStr (s.targetPath url) = s.mainAssetDir.target (fileKey url) := cStr_target _ _

theorem lookup_targetPath {fs : Fs} (s : AssetMgr) (hname : fileKey url ∉ Fs.dirNames) :
    fs.lookup (s.targetPath url) = fs (s.mainAssetDir.target (fileKey url)) := by
  have hcut : cStr (Fs.getFileName url) ∉ Fs.dirNames := hname
  unfold AssetMgr.targetPath
  rw [lookup_target (Fs.slash_notMem_getFileName url), if_neg hcut]
  rfl

theorem lookup_dlPath_url {fs : Fs} (s : AssetMgr) (hname : fileKey url ∉ Fs.dirNames) :
    fs.lookup (s.dlPath url) = fs (s.mainAssetDir.dlPath (fileKey url)) := by
  have hcut : cStr (Fs.getFileName url) ∉ Fs.dirNames := hname
  unfold AssetMgr.dlPath
  rw [lookup_dlPath (Fs.slash_notMem_getFileName url), if_neg hcut]
  rfl

theorem put_dlPath_same (fs : Fs) (n : Option Node) (s : AssetMgr) (url : Str) :
    fs.put (s.dlPath url) n (s.mainAssetDir.dlPath (fileKey url)) = n := by
  rw [← cStr_dlPath_url]
  exact Fs.put_same fs _ n

theorem put_dlPath_target {fs : Fs} {n : Option Node} (s : AssetMgr) (url : Str) :
    fs.put (s.dlPath url) n (s.mainAssetDir.target (fileKey url)) =
      fs (s.mainAssetDir.target (fileKey url)) := by
  apply Fs.put_other
  rw [cStr_dlPath_url]
  exact target_ne_dlPath _ (slash_notMem_fileKey url)

theorem put_targetPath_same (fs : Fs) (n : Option Node) (s : AssetMgr) (url : Str) :
    fs.put (s.targetPath url) n (s.mainAssetDir.target (fileKey url)) = n := by
  rw [← cStr_targetPath]
  exact Fs.put_same fs _ n

theorem Downloaded.regular (h : Downloaded o url s t) (hp : PlainDl s.mainAssetDir s.fs) :
    (openedFile o url s).regular = true :=
  (hp.sameModes (touched_modes o url s)).fileMode (slash_notMem_fileKey url) h.openable

theorem Downloaded.plainDl (h : Downloaded o url s t) (hp : PlainDl s.mainAssetDir s.fs) :
    PlainDl t.mainAssetDir t.fs := by
  obtain ⟨_, _, _, _, hfs⟩ := h.file
  rw [h.calls.mainAssetDir, hfs]
  have htouched := hp.sameModes (touched_modes o url s)
  exact (htouched.put_none (s.dlPath url)).put_target (Fs.slash_notMem_getFileName url)

theorem Failed.plainDl (h : Failed url s t) (hp : PlainDl s.mainAssetDir s.fs) :
    PlainDl t.mainAssetDir t.fs := by
  rw [h.calls.mainAssetDir]
  exact hp.sameModes h.modes

theorem Downloaded.moved (h : Downloaded o url s t) :
    ∃ chunks fs₁ n, Completes o chunks ∧ o.mv = true ∧
    Scratch s.mainAssetDir s.fs fs₁ ∧ (PlainDl s.mainAssetDir s.fs → n.regular = true) ∧
    n.data = stored o chunks ∧
    (∀ m, fs₁ (s.mainAssetDir.target (fileKey url)) = some m → m.directory = false) ∧
    t.fs = fs₁.put (s.targetPath url) (some n) := by
  obtain ⟨chunks, hc, ho, hfree, hfs⟩ := h.file
  refine ⟨chunks, _, { openedFile o url s with data := stored o chunks }, hc, ho,
    scratch_dlPath s url (touched_scratch o url s), h.regular, rfl, ?_, hfs⟩
  intro m hm
  rw [put_dlPath_target] at hm
  by_contra hd
  exact hfree ⟨m, hm, by simpa using hd⟩

theorem publish_none (h : Fs.mv o.mv s.fs (s.dlPath url) (s.targetPath url) = none) :
    s.publish o url = ([], s.record (.rename (s.dlPath url) (s.targetPath url))) := by
  simp only [AssetMgr.publish]
  split
  next => rfl
  next fs hfs =>
    have hsome : none = some fs := h.symm.trans hfs
    simp at hsome

theorem publish_some {fs : Fs} (h : Fs.mv o.mv s.fs (s.dlPath url) (s.targetPath url) = some fs) :
    s.publish o url = (s.targetPath url,
      ((s.record (.rename (s.dlPath url) (s.targetPath url))).setFs fs).setPath url
        (s.targetPath url)) := by
  simp only [AssetMgr.publish]
  split
  next hnone =>
    have hsome : some fs = none := h.symm.trans hnone
    simp at hsome
  next fs' hfs =>
    obtain rfl : fs = fs' := Option.some.inj (h.symm.trans hfs)
    rfl

structure Moved (o : Outcomes) (url : Str) (n : Node) (s t : AssetMgr) : Prop where
  calls : Calls url s t
  cache : t.assetUrlToPath = Function.update s.assetUrlToPath url (some (s.targetPath url))
  mv : o.mv = true
  free : ¬ Blocked s.fs s url
  fs : t.fs = (s.fs.put (s.dlPath url) none).put (s.targetPath url) (some n)

theorem publish_cases {n : Node} (hname : fileKey url ∉ Fs.dirNames) (hdir : n.directory = false)
    (hn : s.fs (s.mainAssetDir.dlPath (fileKey url)) = some n) :
    ((s.publish o url).1 = [] ∧ Failed url s (s.publish o url).2 ∧
      (o.mv = true → Blocked s.fs s url)) ∨
    ((s.publish o url).1 = s.targetPath url ∧ Moved o url n s (s.publish o url).2) := by
  have hcalls : Calls url s (s.record (.rename (s.dlPath url) (s.targetPath url))) := by
    refine Calls.record s _ (fun _ _ => nofun) fun name h => ?_
    rcases h with h | h
    · exact h.symm.trans (dlPath_fileKey s url)
    · exact h.symm.trans (targetPath_fileKey s url)
  have hlookup : s.fs.lookup (s.dlPath url) = some n := (lookup_dlPath_url s hname).trans hn
  cases hmv : Fs.mv o.mv s.fs (s.dlPath url) (s.targetPath url) with
  | none =>
    rw [publish_none hmv]
    refine .inl ⟨rfl, ⟨hcalls, rfl, .refl _, .refl _⟩, fun ho => ?_⟩
    rw [ho] at hmv
    obtain ⟨m, hm, hd⟩ := Fs.mv_none hmv hlookup hdir
    rw [lookup_targetPath s hname] at hm
    exact ⟨m, hm, hd⟩
  | some fs =>
    obtain ⟨n', hn', ho, _, htgt, rfl⟩ := Fs.mv_spec hmv
    obtain rfl : n = n' := Option.some.inj (hlookup.symm.trans hn')
    rw [publish_some hmv]
    refine .inr ⟨rfl, hcalls.congr rfl rfl, rfl, ho, ?_, rfl⟩
    rintro ⟨m, hm, hd⟩
    rw [lookup_targetPath s hname] at htgt
    simp [htgt m hm] at hd

theorem fetch_refused {e : Exn} (h : o.getSync = .error e) :
    s.fetch o url = ([], s.record (.getSync url)) := by
  simp only [AssetMgr.fetch, h]

theorem fetch_broken {e : Exn} {ofs : Ofs} {rs : List (Except Exn (List UInt8))}
    (hg : o.getSync = .ok rs)
    (hl : downloadLoop o.room 0 ⟨false, []⟩ rs = (.error e, ofs)) :
    s.fetch o url = ([], (s.record (.getSync url)).closeFile o url ofs) := by
  simp only [AssetMgr.fetch, hg, hl]

theorem fetch_done {ofs : Ofs} {rs : List (Except Exn (List UInt8))} (hg : o.getSync = .ok rs)
    (hl : downloadLoop o.room 0 ⟨false, []⟩ rs = (.ok (), ofs)) :
    s.fetch o url = ((s.record (.getSync url)).closeFile o url ofs).publish o url := by
  simp only [AssetMgr.fetch, hg, hl]

theorem put_modes {fs : Fs} {n m : Node} (hn : fs (s.mainAssetDir.dlPath (fileKey url)) = some n)
    (hm : m.mode = n.mode) : SameModes s.mainAssetDir fs (fs.put (s.dlPath url) (some m)) := by
  apply SameModes.put
  show m.mode = fileMode (fs (s.mainAssetDir.dlPath (fileKey url)))
  rw [hn, hm]
  rfl

def closed (o : Outcomes) (url : Str) (ofs : Ofs) (s : AssetMgr) : AssetMgr :=
  (s.record (.getSync url)).closeFile o url ofs

theorem closed_mainAssetDir (o : Outcomes) (url : Str) (ofs : Ofs) (s : AssetMgr) :
    (closed o url ofs s).mainAssetDir = s.mainAssetDir := rfl

theorem closed_dlPath (o : Outcomes) (url : Str) (ofs : Ofs) (s : AssetMgr) :
    (closed o url ofs s).dlPath url = s.dlPath url := by
  unfold AssetMgr.dlPath
  rw [closed_mainAssetDir]

theorem closed_targetPath (o : Outcomes) (url : Str) (ofs : Ofs) (s : AssetMgr) :
    (closed o url ofs s).targetPath url = s.targetPath url := by
  unfold AssetMgr.targetPath
  rw [closed_mainAssetDir]

section
variable {n : Node} (hname : fileKey url ∉ Fs.dirNames)
  (hn : s.fs (s.mainAssetDir.dlPath (fileKey url)) = some n) (ofs : Ofs)
include hname hn

theorem closed_fs : (closed o url ofs s).fs =
    s.fs.put (s.dlPath url) (some { n with data := ofs.close o.closeLoss }) := by
  show s.fs.store (s.dlPath url) _ = _
  unfold Fs.store
  rw [lookup_dlPath_url s hname, hn]
  rfl

theorem closed_failed : Failed url s (closed o url ofs s) := by
  have hget : Calls url s (s.record (.getSync url)) :=
    Calls.record s _ (fun _ _ => nofun) fun _ h => h.symm
  refine ⟨hget.congr rfl rfl, rfl, ?_, ?_⟩
  · rw [closed_fs hname hn ofs]
    exact scratch_dlPath s url (.refl _)
  · rw [closed_fs hname hn ofs]
    exact put_modes hn rfl

theorem closed_blocked : Blocked (closed o url ofs s).fs (closed o url ofs s) url ↔
    Blocked s.fs s url := by
  unfold Blocked
  rw [closed_fs hname hn ofs, closed_mainAssetDir, put_dlPath_target]

theorem publish_closed (hdir : n.directory = false) :
    (((closed o url ofs s).publish o url).1 = [] ∧
      Failed url s ((closed o url ofs s).publish o url).2 ∧
      (o.mv = true → Blocked s.fs s url)) ∨
    (((closed o url ofs s).publish o url).1 = s.targetPath url ∧
      Moved o url { n with data := ofs.close o.closeLoss } s
        ((closed o url ofs s).publish o url).2) := by
  have hfail : Failed url s (closed o url ofs s) := closed_failed hname hn ofs
  have hblocked := closed_blocked (o := o) hname hn ofs
  have hfs := closed_fs (o := o) hname hn ofs
  have hkind : Node.directory { n with data := ofs.close o.closeLoss } = false := hdir
  have hfile : (closed o url ofs s).fs
      ((closed o url ofs s).mainAssetDir.dlPath (fileKey url)) =
      some { n with data := ofs.close o.closeLoss } := by
    rw [hfs, closed_mainAssetDir]
    exact put_dlPath_same s.fs _ s url
  rcases publish_cases (o := o) hname hkind hfile with ⟨hpath, hfail', hblock⟩ | ⟨hpath, hmoved⟩
  · left
    refine ⟨hpath, ⟨?_, hfail'.cache.trans hfail.cache, ?_, ?_⟩, ?_⟩
    · exact hfail.calls.trans hfail'.calls
    · exact hfail.scratch.trans hfail'.scratch
    · exact hfail.modes.trans hfail'.modes
    · intro hmv
      exact hblocked.mp (hblock hmv)
  · right
    have hmovedFs := hmoved.fs
    have hcache := hmoved.cache
    rw [closed_dlPath, closed_targetPath, hfs, Fs.put_put] at hmovedFs
    rw [closed_targetPath, hfail.cache] at hcache
    rw [closed_targetPath] at hpath
    refine ⟨hpath, hfail.calls.trans hmoved.calls, hcache, hmoved.mv, ?_, hmovedFs⟩
    exact fun hb => hmoved.free (hblocked.mpr hb)

end

theorem fetch_cases {n : Node} (hname : fileKey url ∉ Fs.dirNames) (hdir : n.directory = false)
    (hn : s.fs (s.mainAssetDir.dlPath (fileKey url)) = some n) :
    ((s.fetch o url).1 = [] ∧ Failed url s (s.fetch o url).2 ∧
      ∀ chunks, Completes o chunks → o.mv = true → Blocked s.fs s url) ∨
    ((s.fetch o url).1 = s.targetPath url ∧ ∃ chunks, Completes o chunks ∧
      Moved o url { n with data := stored o chunks } s (s.fetch o url).2) := by
  cases hg : o.getSync with
  | error e =>
    have hget : Calls url s (s.record (.getSync url)) :=
      Calls.record s _ (fun _ _ => nofun) fun _ h => h.symm
    rw [fetch_refused hg]
    exact .inl ⟨rfl, ⟨hget, rfl, .refl _, .refl _⟩, fun _ h => by simp [Completes, hg] at h⟩
  | ok rs =>
    cases hl : downloadLoop o.room 0 ⟨false, []⟩ rs with
    | mk res ofs =>
      cases res with
      | error e =>
        -- the destructor still closes the stream, over the temporary file only
        rw [fetch_broken hg hl]
        refine .inl ⟨rfl, closed_failed hname hn ofs, fun chunks h => ?_⟩
        have hok := (downloadLoop_ok o.room 0 ⟨false, []⟩).mpr
          ⟨chunks, Except.ok.inj (hg.symm.trans h)⟩
        simp [hl] at hok
      | ok v =>
        obtain ⟨chunks, rfl⟩ := (downloadLoop_ok _ _ _).mp (congrArg Prod.fst hl)
        have hbytes : ofs.close o.closeLoss = stored o chunks := by simp only [stored, hl]
        rw [fetch_done hg hl]
        rcases publish_closed (o := o) hname hn ofs hdir with
          ⟨hpath, hfail, hblock⟩ | ⟨hpath, hmoved⟩
        · exact .inl ⟨hpath, hfail, fun _ _ hmv => hblock hmv⟩
        · rw [hbytes] at hmoved
          exact .inr ⟨hpath, chunks, hg, hmoved⟩

def opening (url : Str) (s : AssetMgr) (fs : Fs) : AssetMgr :=
  ((s.record (.touch (s.dlPath url))).setFs fs).record (.openFile (s.dlPath url))

theorem opening_calls (url : Str) (s : AssetMgr) (fs : Fs) : Calls url s (opening url s fs) := by
  have hconcerns : ∀ name, cStr (Fs.getFileName (s.dlPath url)) = name → name = fileKey url :=
    fun _ h => h.symm.trans (dlPath_fileKey s url)
  have htouch : Calls url s ((s.record (.touch (s.dlPath url))).setFs fs) :=
    (Calls.record s (.touch _) (fun _ _ => nofun) hconcerns).congr rfl rfl
  exact htouch.trans (Calls.record _ (.openFile _) (fun _ _ => nofun) hconcerns)

theorem download_error {e : Exn} {fs : Fs} (h : touched o url s = (.error e, fs)) :
    s.download o url = (.error e, (s.record (.touch (s.dlPath url))).setFs fs) := by
  simp only [AssetMgr.download]
  split
  next e' fs' he =>
    obtain ⟨hres, hfs⟩ := Prod.mk.inj (h.symm.trans he)
    rw [Except.error.inj hres, hfs]
  next he =>
    have hres := congrArg Prod.fst (h.symm.trans he)
    simp at hres

theorem download_touched {fs : Fs} (h : touched o url s = (.ok (), fs)) :
    (∀ fs', Fs.ofstreamOpen o.ofsOpen fs (s.dlPath url) = some fs' →
      s.download o url = (.ok (((opening url s fs).setFs fs').fetch o url).1,
        (((opening url s fs).setFs fs').fetch o url).2)) ∧
    (Fs.ofstreamOpen o.ofsOpen fs (s.dlPath url) = none →
      s.download o url = (.ok [], opening url s fs)) := by
  simp only [AssetMgr.download]
  split
  next e' fs' he =>
    have hres := congrArg Prod.fst (h.symm.trans he)
    simp at hres
  next fs₁ he =>
    obtain rfl : fs = fs₁ := congrArg Prod.snd (h.symm.trans he)
    constructor
    · intro fs' hopen
      split
      next hnone =>
        have hsome : some fs' = none := hopen.symm.trans hnone
        simp at hsome
      next fs₂ hopen₂ =>
        obtain rfl : fs' = fs₂ := Option.some.inj (hopen.symm.trans hopen₂)
        rfl
    · intro hnone
      split
      next => rfl
      next fs₂ hopen₂ =>
        have hsome : none = some fs₂ := hnone.symm.trans hopen₂
        simp at hsome

def opened (o : Outcomes) (url : Str) (s : AssetMgr) : AssetMgr :=
  (opening url s (touched o url s).2).setFs
    ((touched o url s).2.put (s.dlPath url) (some (openedFile o url s)))

theorem Opens.file (h : Opens o url s) : fileKey url ∉ Fs.dirNames ∧
    (openedFile o url s).openable = true ∧
    Fs.ofstreamOpen o.ofsOpen (touched o url s).2 (s.dlPath url) =
      some ((touched o url s).2.put (s.dlPath url) (some (openedFile o url s))) := by
  obtain ⟨fs', hopen⟩ := Option.isSome_iff_exists.mp h.2
  obtain ⟨hname, hkind, rfl⟩ := ofstreamOpen_dlPath (Fs.slash_notMem_getFileName url) hopen
  exact ⟨hname, hkind, hopen⟩

theorem download_opens (h : Opens o url s) :
    s.download o url =
      (.ok ((opened o url s).fetch o url).1, ((opened o url s).fetch o url).2) := by
  have htouch : touched o url s = (.ok (), (touched o url s).2) := Prod.ext h.1 rfl
  exact (download_touched htouch).1 _ h.file.2.2

theorem opened_mainAssetDir (o : Outcomes) (url : Str) (s : AssetMgr) :
    (opened o url s).mainAssetDir = s.mainAssetDir := rfl

theorem opened_fs (o : Outcomes) (url : Str) (s : AssetMgr) : (opened o url s).fs =
    (touched o url s).2.put (s.dlPath url) (some (openedFile o url s)) := rfl

theorem opened_dlPath (o : Outcomes) (url : Str) (s : AssetMgr) :
    (opened o url s).dlPath url = s.dlPath url := by
  unfold AssetMgr.dlPath
  rw [opened_mainAssetDir]

theorem opened_targetPath (o : Outcomes) (url : Str) (s : AssetMgr) :
    (opened o url s).targetPath url = s.targetPath url := by
  unfold AssetMgr.targetPath
  rw [opened_mainAssetDir]

theorem opened_calls (o : Outcomes) (url : Str) (s : AssetMgr) : Calls url s (opened o url s) :=
  (opening_calls url s (touched o url s).2).congr rfl rfl

theorem opened_file (o : Outcomes) (url : Str) (s : AssetMgr) :
    (opened o url s).fs ((opened o url s).mainAssetDir.dlPath (fileKey url)) =
      some (openedFile o url s) := by
  rw [opened_fs, opened_mainAssetDir]
  exact put_dlPath_same _ _ s url

theorem opened_scratch (o : Outcomes) (url : Str) (s : AssetMgr) :
    Scratch s.mainAssetDir (touched o url s).2 (opened o url s).fs :=
  scratch_dlPath s url (.refl _)

theorem opened_modes (o : Outcomes) (url : Str) (s : AssetMgr) :
    SameModes s.mainAssetDir (touched o url s).2 (opened o url s).fs := by
  apply SameModes.put
  rfl

theorem opened_blocked (o : Outcomes) (url : Str) (s : AssetMgr) :
    Blocked (opened o url s).fs (opened o url s) url ↔ Blocked (touched o url s).2 s url := by
  unfold Blocked
  rw [opened_fs, opened_mainAssetDir, put_dlPath_target]

theorem fetch_opened (h : Opens o url s) :
    (((opened o url s).fetch o url).1 = [] ∧ Failed url s ((opened o url s).fetch o url).2 ∧
      (∀ chunks, Completes o chunks → o.mv = true → Blocked (touched o url s).2 s url) ∧
      Scratch s.mainAssetDir (touched o url s).2 ((opened o url s).fetch o url).2.fs) ∨
    (((opened o url s).fetch o url).1 = s.targetPath url ∧ fileKey url ≠ lit ".acord-dl" ∧
      Downloaded o url s ((opened o url s).fetch o url).2) := by
  obtain ⟨hname, hopen, _⟩ := h.file
  have hdir := Node.openable_not_directory hopen
  have hblocked := opened_blocked o url s
  rcases fetch_cases (o := o) hname hdir (opened_file o url s) with
    ⟨hpath, hfail, hblock⟩ | ⟨hpath, chunks, hchunks, hmoved⟩
  · left
    have hfetch := hfail.scratch
    have hfetchModes := hfail.modes
    rw [opened_mainAssetDir] at hfetch hfetchModes
    have hscratch := (opened_scratch o url s).trans hfetch
    have hmodes := (opened_modes o url s).trans hfetchModes
    refine ⟨hpath, ⟨?_, hfail.cache, ?_, ?_⟩, ?_, hscratch⟩
    · exact (opened_calls o url s).trans hfail.calls
    · exact (touched_scratch o url s).trans hscratch
    · exact (touched_modes o url s).trans hmodes
    · intro chunks hc hmv
      exact hblocked.mp (hblock chunks hc hmv)
  · right
    have hfree : ¬ Blocked (touched o url s).2 s url := fun hb => hmoved.free (hblocked.mpr hb)
    have hne : fileKey url ≠ lit ".acord-dl" := by
      -- the download directory was made, so the file could not be moved there
      intro he
      obtain ⟨d, hd, hdir⟩ := touched_dlDir h.1
      rw [dlDir_eq_target, ← he] at hd
      exact hfree ⟨d, hd, hdir⟩
    have hfs := hmoved.fs
    have hcache := hmoved.cache
    rw [opened_dlPath, opened_targetPath, opened_fs, Fs.put_put] at hfs
    rw [opened_targetPath] at hpath hcache
    exact ⟨hpath, hne, (opened_calls o url s).trans hmoved.calls, hcache, hname, hopen,
      chunks, hchunks, hmoved.mv, hfree, hfs⟩

theorem download_cases (o : Outcomes) (url : Str) (s : AssetMgr) :
    (∃ e, (touched o url s).1 = .error e ∧ (s.download o url).1 = .error e ∧
      Failed url s (s.download o url).2) ∨
    ((touched o url s).1 = .ok () ∧ (s.download o url).1 = .ok [] ∧
      Failed url s (s.download o url).2 ∧
      (Opens o url s → ∀ chunks, Completes o chunks → o.mv = true →
        Blocked (touched o url s).2 s url) ∧
      Scratch s.mainAssetDir (touched o url s).2 (s.download o url).2.fs) ∨
    (Opens o url s ∧ (s.download o url).1 = .ok (s.targetPath url) ∧ fileKey url ≠ lit ".acord-dl" ∧
      Downloaded o url s (s.download o url).2) := by
  have hscratch := touched_scratch o url s
  have hmodes := touched_modes o url s
  cases hres : (touched o url s).1 with
  | error e =>
    have htouch : Calls url s (s.record (.touch (s.dlPath url))) :=
      Calls.record s _ (fun _ _ => nofun) fun _ h => h.symm.trans (dlPath_fileKey s url)
    rw [download_error (Prod.ext hres rfl)]
    exact .inl ⟨e, rfl, rfl, htouch.congr rfl rfl, rfl, hscratch, hmodes⟩
  | ok v =>
    right
    by_cases hopens : Opens o url s
    · rw [download_opens hopens]
      rcases fetch_opened hopens with ⟨hpath, hfail, hblock, hmade⟩ | ⟨hpath, hne, hdone⟩
      · exact .inl ⟨rfl, congrArg Except.ok hpath, hfail, fun _ => hblock, hmade⟩
      · exact .inr ⟨hopens, congrArg Except.ok hpath, hne, hdone⟩
    · have hnone : Fs.ofstreamOpen o.ofsOpen (touched o url s).2 (s.dlPath url) = none := by
        rw [← Option.not_isSome_iff_eq_none]
        exact fun hsome => hopens ⟨hres, hsome⟩
      have hcalls := opening_calls url s (touched o url s).2
      rw [(download_touched (Prod.ext hres rfl)).2 hnone]
      exact .inl ⟨rfl, rfl, ⟨hcalls, rfl, hscratch, hmodes⟩, fun h => absurd h hopens, .refl _⟩

theorem localPath_eq (o : Outcomes) (url : Str) (s : AssetMgr) : s.localPath o url =
    if (Fs.basicStat o.stat s.fs (s.targetPath url)).isFile then some (s.targetPath url)
    else none := by
  show List.find? _ [s.targetPath url] = _
  rw [List.find?_singleton]

theorem find_cases (o : Outcomes) (url : Str) (s : AssetMgr) :
    (∃ p, s.assetUrlToPath url = some p ∧ s.find o url = (.ok p, s)) ∨
    (s.assetUrlToPath url = none ∧ (Fs.basicStat o.stat s.fs (s.targetPath url)).isFile = true ∧
      s.find o url = (.ok (s.targetPath url), s.setPath url (s.targetPath url))) ∨
    (s.assetUrlToPath url = none ∧ (Fs.basicStat o.stat s.fs (s.targetPath url)).isFile = false ∧
      s.find o url = s.download o url) := by
  cases hc : s.assetUrlToPath url with
  | some p => exact .inl ⟨p, rfl, by simp only [AssetMgr.find, hc]⟩
  | none =>
    cases hl : (Fs.basicStat o.stat s.fs (s.targetPath url)).isFile with
    | true =>
      refine .inr (.inl ⟨rfl, rfl, ?_⟩)
      simp only [AssetMgr.find, hc, localPath_eq, hl, ↓reduceIte]
    | false =>
      refine .inr (.inr ⟨rfl, rfl, ?_⟩)
      simp [AssetMgr.find, hc, localPath_eq, hl]

theorem find_download (hc : s.assetUrlToPath url = none)
    (hl : (Fs.basicStat o.stat s.fs (s.targetPath url)).isFile = false) :
    s.find o url = s.download o url := by
  rcases find_cases o url s with ⟨p, hp, _⟩ | ⟨_, hl', _⟩ | ⟨_, _, hf⟩
  · simp [hc] at hp
  · simp [hl] at hl'
  · exact hf

theorem targetPath_ne_nil (s : AssetMgr) (url : Str) : s.targetPath url ≠ [] := by
  simp [AssetMgr.targetPath, AssetDir.target_eq]

theorem makeAvailable_ok {p : Str} (h : (s.find o url).1 = .ok p) :
    s.makeAvailable o url = (.ok p, (s.find o url).2.record (.found url p)) := by
  unfold AssetMgr.makeAvailable
  cases hf : s.find o url with
  | mk res t =>
    rw [hf] at h
    obtain rfl : res = .ok p := h
    rfl

theorem makeAvailable_error {e : Exn} (h : (s.find o url).1 = .error e) :
    s.makeAvailable o url = (.error e, (s.find o url).2) := by
  unfold AssetMgr.makeAvailable
  cases hf : s.find o url with
  | mk res t =>
    rw [hf] at h
    obtain rfl : res = .error e := h
    rfl

/-- Everything that serving a URL comes to: it is cached, or a file of the directory, or downloaded
with one of three results. -/
theorem makeAvailable_cases (o : Outcomes) (url : Str) (s : AssetMgr) :
    (∃ p, s.assetUrlToPath url = some p ∧
      s.makeAvailable o url = (.ok p, s.record (.found url p))) ∨
    (s.assetUrlToPath url = none ∧ (Fs.basicStat o.stat s.fs (s.targetPath url)).isFile = true ∧
      s.makeAvailable o url = (.ok (s.targetPath url),
        (s.setPath url (s.targetPath url)).record (.found url (s.targetPath url)))) ∨
    (s.assetUrlToPath url = none ∧ (Fs.basicStat o.stat s.fs (s.targetPath url)).isFile = false ∧
      ((∃ e, s.makeAvailable o url = (.error e, (s.download o url).2) ∧
          Failed url s (s.download o url).2) ∨
        ((touched o url s).1 = .ok () ∧
          s.makeAvailable o url = (.ok [], (s.download o url).2.record (.found url [])) ∧
          Failed url s (s.download o url).2 ∧
          (Opens o url s → ∀ chunks, Completes o chunks → o.mv = true →
            Blocked (touched o url s).2 s url)) ∨
        (s.makeAvailable o url = (.ok (s.targetPath url),
            (s.download o url).2.record (.found url (s.targetPath url))) ∧
          fileKey url ≠ lit ".acord-dl" ∧ Downloaded o url s (s.download o url).2))) := by
  rcases find_cases o url s with ⟨p, hp, hf⟩ | ⟨hc, hl, hf⟩ | ⟨hc, hl, hf⟩
  · refine .inl ⟨p, hp, ?_⟩
    rw [makeAvailable_ok (congrArg Prod.fst hf), hf]
  · refine .inr (.inl ⟨hc, hl, ?_⟩)
    rw [makeAvailable_ok (congrArg Prod.fst hf), hf]
  · refine .inr (.inr ⟨hc, hl, ?_⟩)
    rcases download_cases o url s with
      ⟨e, _, hr, hfail⟩ | ⟨ht, hr, hfail, hblock, _⟩ | ⟨_, hr, hne, hdone⟩
    · refine .inl ⟨e, ?_, hfail⟩
      rw [makeAvailable_error ((congrArg Prod.fst hf).trans hr), hf]
    · refine .inr (.inl ⟨ht, ?_, hfail, hblock⟩)
      rw [makeAvailable_ok ((congrArg Prod.fst hf).trans hr), hf]
    · refine .inr (.inr ⟨?_, hne, hdone⟩)
      rw [makeAvailable_ok ((congrArg Prod.fst hf).trans hr), hf]

end Acord
