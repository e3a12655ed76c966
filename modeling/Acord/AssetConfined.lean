import Acord.AssetDownload
import Acord.AssetRequests

/-! Where the asset manager writes, and what it reports, for any URL: the asset directory, its
download directory and what is directly in them. -/

namespace Acord
open Ac AssetDir Transition

def Component (f : Str) : Prop := slash ∉ f ∧ f ∉ Fs.dirNames

def Inside (dir : AssetDir) (k : Str) : Prop :=
  k = dir.dlDir ∨ ∃ f, Component f ∧ (k = dir.dlPath f ∨ k = dir.target f)

def Reported (dir : AssetDir) (p : Str) : Prop :=
  ∃ f, slash ∉ f ∧ Component (cStr f) ∧ p = dir.path ++ lit "/" ++ f

def AssetOp.Confined (dir : AssetDir) : AssetOp → Prop
  | touch p => Fs.parentPath p = dir.dlDir ∧
      (Inside dir (cStr p) ∨ ∀ ok fs, Fs.fopenAppend ok fs p = none)
  | openFile p => Inside dir (cStr p) ∨ ∀ ok fs, Fs.ofstreamOpen ok fs p = none
  | getSync _ => True
  | rename src tgt => Inside dir (cStr src) ∧ Inside dir (cStr tgt)
  | found _ p => p = [] ∨ Reported dir p

namespace Fs
variable {fs fs' : Fs} {p k : Str}

theorem openable_dirName (h : getFileName (cStr p) ∈ dirNames) : fs.openable p = false := by
  unfold openable lookup
  rw [if_pos h]
  decide

theorem fopenAppend_dirName (h : getFileName (cStr p) ∈ dirNames) (ok : Bool) (fs : Fs) :
    fopenAppend ok fs p = none := by
  unfold fopenAppend
  simp [openable_dirName h]

theorem ofstreamOpen_dirName (h : getFileName (cStr p) ∈ dirNames) (ok : Bool) (fs : Fs) :
    ofstreamOpen ok fs p = none := by
  unfold ofstreamOpen
  simp [openable_dirName h]

theorem createDirectories_changes {ok : Bool} (h : createDirectories ok fs p = some fs')
    (hk : fs' k ≠ fs k) : k = cStr p := by
  rcases createDirectories_spec h with ⟨_, _, _, rfl⟩ | ⟨_, rfl⟩
  · exact absurd rfl hk
  · by_contra hne
    exact hk (put_other hne)

theorem fopenAppend_changes {ok : Bool} (h : fopenAppend ok fs p = some fs') (hk : fs' k ≠ fs k) :
    k = cStr p ∧ getFileName (cStr p) ∉ dirNames := by
  have hname : getFileName (cStr p) ∉ dirNames := by
    intro hmem
    rw [fopenAppend_dirName hmem] at h
    cases h
  obtain ⟨_, rfl⟩ := fopenAppend_spec h
  split at hk
  · exact absurd rfl hk
  · refine ⟨?_, hname⟩
    by_contra hne
    exact hk (put_other hne)

theorem touch_changes {mkdirOk fopenOk : Bool} (hp : parentPath p ≠ [])
    (hk : (touch mkdirOk fopenOk fs p).2 k ≠ fs k) :
    k = cStr (parentPath p) ∨ (k = cStr p ∧ getFileName (cStr p) ∉ dirNames) := by
  rcases touch_cases fs mkdirOk fopenOk hp with ⟨e, h⟩ | ⟨fs₁, hd, _, h⟩ | ⟨fs₁, fs₂, hd, ho, h⟩ <;>
    rw [h] at hk
  · exact absurd rfl hk
  · exact .inl (createDirectories_changes hd hk)
  · by_cases hk₁ : fs₁ k = fs k
    · rw [← hk₁] at hk
      exact .inr (fopenAppend_changes ho hk)
    · exact .inl (createDirectories_changes hd hk₁)

end Fs

structure Confined (dir : AssetDir) (s t : AssetMgr) : Prop where
  mainAssetDir : t.mainAssetDir = s.mainAssetDir
  fs : ∀ k, t.fs k ≠ s.fs k → Inside dir k
  log : ∃ ops, t.log = s.log ++ ops ∧ ∀ op ∈ ops, op.Confined dir

variable {dir : AssetDir} {o : Outcomes} {url p : Str} {s t u : AssetMgr} {fs : Fs} {op : AssetOp}

namespace Confined

theorem refl (s : AssetMgr) : Confined dir s s := ⟨rfl, fun _ h => absurd rfl h, [], by simp⟩

theorem trans (h : Confined dir s t) (h' : Confined dir t u) : Confined dir s u := by
  obtain ⟨hd, hf, ops, hl, hops⟩ := h
  obtain ⟨hd', hf', ops', hl', hops'⟩ := h'
  refine ⟨hd'.trans hd, fun k hk => ?_, ops ++ ops', by rw [hl', hl, List.append_assoc],
    fun op hop => ?_⟩
  · by_cases hk' : u.fs k = t.fs k
    · exact hf k (hk' ▸ hk)
    · exact hf' k hk'
  · exact (List.mem_append.mp hop).elim (hops op) (hops' op)

theorem record (h : Confined dir s t) (hop : op.Confined dir) : Confined dir s (t.record op) := by
  have hone : Confined dir t (t.record op) :=
    ⟨rfl, fun _ h => absurd rfl h, [op], rfl, fun op' hm => List.mem_singleton.mp hm ▸ hop⟩
  exact h.trans hone

theorem setFs (h : Confined dir s t) (hk : ∀ k, fs k ≠ t.fs k → Inside dir k) :
    Confined dir s (t.setFs fs) := by
  have hone : Confined dir t (t.setFs fs) := ⟨rfl, hk, [], by simp [AssetMgr.setFs]⟩
  exact h.trans hone

theorem setPath (h : Confined dir s t) (url p : Str) : Confined dir s (t.setPath url p) :=
  ⟨h.mainAssetDir, h.fs, h.log⟩

end Confined

theorem put_changes {fs : Fs} {n : Option Node} {k : Str} (hp : Inside dir (cStr p))
    (hk : fs.put p n k ≠ fs k) : Inside dir k := by
  by_cases he : k = cStr p
  · exact he ▸ hp
  · exact absurd (Fs.put_other he) hk

theorem inside_dlPath (s : AssetMgr) (h : fileKey url ∉ Fs.dirNames) :
    Inside s.mainAssetDir (cStr (s.dlPath url)) :=
  .inr ⟨fileKey url, ⟨slash_notMem_fileKey url, h⟩, .inl (cStr_dlPath_url s url)⟩

theorem inside_targetPath (s : AssetMgr) (h : fileKey url ∉ Fs.dirNames) :
    Inside s.mainAssetDir (cStr (s.targetPath url)) :=
  .inr ⟨fileKey url, ⟨slash_notMem_fileKey url, h⟩, .inr (cStr_targetPath s url)⟩

theorem reported_targetPath (s : AssetMgr) (h : fileKey url ∉ Fs.dirNames) :
    Reported s.mainAssetDir (s.targetPath url) :=
  ⟨Fs.getFileName url, Fs.slash_notMem_getFileName url, ⟨slash_notMem_fileKey url, h⟩, rfl⟩

theorem parentPath_dlPath_url (s : AssetMgr) (url : Str) :
    Fs.parentPath (s.dlPath url) = s.mainAssetDir.dlDir :=
  parentPath_dlPath _ (Fs.slash_notMem_getFileName url)

theorem dlPath_name (s : AssetMgr) (url : Str) :
    Fs.getFileName (cStr (s.dlPath url)) = fileKey url := by
  rw [cStr_dlPath_url]
  exact getFileName_dlPath _ (slash_notMem_fileKey url)

theorem touch_confined (s : AssetMgr) (url : Str) :
    (AssetOp.touch (s.dlPath url)).Confined s.mainAssetDir := by
  refine ⟨parentPath_dlPath_url s url, ?_⟩
  by_cases hname : fileKey url ∈ Fs.dirNames
  · rw [← dlPath_name s] at hname
    exact .inr (Fs.fopenAppend_dirName hname)
  · exact .inl (inside_dlPath s hname)

theorem openFile_confined (s : AssetMgr) (url : Str) :
    (AssetOp.openFile (s.dlPath url)).Confined s.mainAssetDir := by
  by_cases hname : fileKey url ∈ Fs.dirNames
  · rw [← dlPath_name s] at hname
    exact .inr (Fs.ofstreamOpen_dirName hname)
  · exact .inl (inside_dlPath s hname)

theorem touched_changes {k : Str} (hk : (touched o url s).2 k ≠ s.fs k) :
    Inside s.mainAssetDir k := by
  have hparent : Fs.parentPath (s.dlPath url) ≠ [] := by
    rw [parentPath_dlPath_url]
    exact dlDir_ne_nil _
  rcases Fs.touch_changes hparent hk with rfl | ⟨rfl, hname⟩
  · rw [parentPath_dlPath_url, cStr_dlDir]
    exact .inl rfl
  · rw [dlPath_name] at hname
    exact inside_dlPath s hname

theorem opening_confined (o : Outcomes) (url : Str) (s : AssetMgr) :
    Confined s.mainAssetDir s (opening url s (touched o url s).2) := by
  have htouch : Confined s.mainAssetDir s (s.record (.touch (s.dlPath url))) :=
    (Confined.refl s).record (touch_confined s url)
  exact (htouch.setFs fun k hk => touched_changes hk).record (openFile_confined s url)

theorem opened_confined (h : Opens o url s) : Confined s.mainAssetDir s (opened o url s) :=
  (opening_confined o url s).setFs fun _ hk => put_changes (inside_dlPath s h.file.1) hk

theorem closed_confined (hname : fileKey url ∉ Fs.dirNames) (ofs : Ofs) :
    Confined s.mainAssetDir s (closed o url ofs s) := by
  have hget : Confined s.mainAssetDir s (s.record (.getSync url)) :=
    (Confined.refl s).record trivial
  exact hget.setFs fun _ hk => put_changes (inside_dlPath s hname) hk

theorem publish_confined (o : Outcomes) (hname : fileKey url ∉ Fs.dirNames) :
    Confined s.mainAssetDir s (s.publish o url).2 := by
  have hrename : Confined s.mainAssetDir s
      (s.record (.rename (s.dlPath url) (s.targetPath url))) :=
    (Confined.refl s).record ⟨inside_dlPath s hname, inside_targetPath s hname⟩
  cases hmv : Fs.mv o.mv s.fs (s.dlPath url) (s.targetPath url) with
  | none =>
    rw [publish_none hmv]
    exact hrename
  | some fs =>
    obtain ⟨n, _, _, _, _, rfl⟩ := Fs.mv_spec hmv
    rw [publish_some hmv]
    refine (hrename.setFs fun k hk => ?_).setPath _ _
    by_cases hk' : s.fs.put (s.dlPath url) none k = s.fs k
    · exact put_changes (inside_targetPath s hname) (hk'.symm ▸ hk)
    · exact put_changes (inside_dlPath s hname) hk'

theorem fetch_confined (o : Outcomes) (hname : fileKey url ∉ Fs.dirNames) :
    Confined s.mainAssetDir s (s.fetch o url).2 := by
  cases hg : o.getSync with
  | error e =>
    rw [fetch_refused hg]
    exact (Confined.refl s).record trivial
  | ok rs =>
    cases hl : downloadLoop o.room 0 ⟨false, []⟩ rs with
    | mk res ofs =>
      have hclosed : Confined s.mainAssetDir s (closed o url ofs s) := closed_confined hname ofs
      cases res with
      | error e =>
        rw [fetch_broken hg hl]
        exact hclosed
      | ok v =>
        rw [fetch_done hg hl]
        exact hclosed.trans (publish_confined (s := closed o url ofs s) o hname)

theorem download_confined (o : Outcomes) (url : Str) (s : AssetMgr) :
    Confined s.mainAssetDir s (s.download o url).2 := by
  cases hres : (touched o url s).1 with
  | error e =>
    rw [download_error (Prod.ext hres rfl)]
    exact ((Confined.refl s).record (touch_confined s url)).setFs fun _ hk => touched_changes hk
  | ok v =>
    by_cases hopens : Opens o url s
    · rw [download_opens hopens]
      exact (opened_confined hopens).trans (fetch_confined (s := opened o url s) o hopens.file.1)
    · have hnone : Fs.ofstreamOpen o.ofsOpen (touched o url s).2 (s.dlPath url) = none := by
        rw [← Option.not_isSome_iff_eq_none]
        exact fun hsome => hopens ⟨hres, hsome⟩
      rw [(download_touched (Prod.ext hres rfl)).2 hnone]
      exact opening_confined o url s

def CacheReported (dir : AssetDir) (s : AssetMgr) : Prop :=
  ∀ u p, s.assetUrlToPath u = some p → Reported dir p

theorem CacheReported.update (hi : CacheReported dir s)
    (hp : Reported dir p) (h : t.assetUrlToPath = Function.update s.assetUrlToPath url (some p)) :
    CacheReported dir t := by
  intro u q hq
  rw [h] at hq
  by_cases hu : u = url
  · rw [hu, Function.update_self] at hq
    exact Option.some.inj hq ▸ hp
  · rw [Function.update_of_ne hu] at hq
    exact hi u q hq

theorem found_name (h : (Fs.basicStat o.stat s.fs (s.targetPath url)).isFile = true) :
    fileKey url ∉ Fs.dirNames := by
  intro hname
  obtain ⟨_, n, hn, hbit⟩ := Fs.basicStat_isFile.mp h
  unfold AssetMgr.targetPath at hn
  have hcut : cStr (Fs.getFileName url) ∈ Fs.dirNames := hname
  rw [lookup_target (Fs.slash_notMem_getFileName url), if_pos hcut] at hn
  obtain rfl := Option.some.inj hn
  exact absurd hbit (by decide)

theorem find_confined (o : Outcomes) (url : Str) (hi : CacheReported s.mainAssetDir s) :
    Confined s.mainAssetDir s (s.find o url).2 ∧ CacheReported s.mainAssetDir (s.find o url).2 ∧
      ∀ p, (s.find o url).1 = .ok p → p = [] ∨ Reported s.mainAssetDir p := by
  rcases find_cases o url s with ⟨p, hp, hf⟩ | ⟨_, hl, hf⟩ | ⟨_, _, hf⟩
  · rw [hf]
    refine ⟨.refl s, hi, fun q hq => ?_⟩
    obtain rfl := Except.ok.inj hq
    exact .inr (hi url p hp)
  · have hrep := reported_targetPath s (found_name hl)
    rw [hf]
    refine ⟨(Confined.refl s).setPath _ _, hi.update hrep rfl, fun q hq => ?_⟩
    obtain rfl := Except.ok.inj hq
    exact .inr hrep
  · rw [hf]
    refine ⟨download_confined o url s, ?_⟩
    rcases download_cases o url s with
      ⟨e, _, hr, hfail⟩ | ⟨_, hr, hfail, _⟩ | ⟨_, hr, _, hdone⟩
    · rw [hr]
      exact ⟨fun u p hp => hi u p (hfail.cache ▸ hp), fun p hp => nomatch hp⟩
    · rw [hr]
      refine ⟨fun u p hp => hi u p (hfail.cache ▸ hp), fun p hp => ?_⟩
      exact .inl (Except.ok.inj hp).symm
    · have hrep := reported_targetPath s hdone.name
      rw [hr]
      exact ⟨hi.update hrep hdone.cache, fun p hp => .inr (Except.ok.inj hp ▸ hrep)⟩

theorem makeAvailable_confined (o : Outcomes) (url : Str) (hi : CacheReported s.mainAssetDir s) :
    Confined s.mainAssetDir s (s.makeAvailable o url).2 ∧
      CacheReported s.mainAssetDir (s.makeAvailable o url).2 ∧
      ∀ p, (s.makeAvailable o url).1 = .ok p → p = [] ∨ Reported s.mainAssetDir p := by
  obtain ⟨hc, hi', hp⟩ := find_confined o url hi
  cases hr : (s.find o url).1 with
  | error e =>
    rw [makeAvailable_error hr]
    exact ⟨hc, hi', fun p h => nomatch h⟩
  | ok p =>
    rw [makeAvailable_ok hr]
    refine ⟨hc.record (hp p hr), hi', fun q hq => ?_⟩
    obtain rfl := Except.ok.inj hq
    exact hp p hr

def ReportedOrNone (dir : AssetDir) (_ : AssetMgr) (_ p : Str) : Prop := p = [] ∨ Reported dir p

theorem confinedRule (dir : AssetDir) (s₀ : AssetMgr) (h₀ : s₀.mainAssetDir = dir) :
    UrlRule AnyOutcomes (fun s => Confined dir s₀ s ∧ CacheReported dir s) (Confined dir)
      (ReportedOrNone dir) where
  refl := Confined.refl
  trans := Confined.trans
  stable _ h := h
  serve := by
    rintro o url s - ⟨hc, hi⟩
    obtain rfl : s.mainAssetDir = dir := hc.mainAssetDir.trans h₀
    obtain ⟨hc', hi', hp⟩ := makeAvailable_confined o url hi
    exact ⟨⟨hc.trans hc', hi'⟩, hc', hp⟩

variable {lib : FrameLib} {tr : List AssetEvent} {sv : AssetService}

/-- Whatever URLs the clients send and whatever becomes of the calls: what the service changed in
the file system is inside the asset directory, its calls work on paths inside or cannot succeed,
and every path it answers with is that of one proper component in the directory. -/
theorem urls_confined (h : (assetService lib dir fs).Run tr sv) :
    (∀ k, sv.mgr.fs k ≠ fs k → Inside dir k) ∧
    (∀ op ∈ sv.mgr.log, op.Confined dir) ∧
    (∀ i cmd reply, sv.sessions i = .replying cmd reply →
      RepliesWith (ReportedOrNone dir) sv.mgr cmd reply) ∧
    ∀ e t, AssetStep lib sv e t → ∀ k, t.mgr.fs k ≠ sv.mgr.fs k → Inside dir k := by
  have R := confinedRule dir (.construct dir fs) rfl
  have hi := R.run ⟨.refl _, fun _ _ h => nomatch h⟩ (h.guard_of polledWith_any)
  obtain ⟨ops, hlog, hops⟩ := hi.mgr.1.log
  refine ⟨hi.mgr.1.fs, fun op hop => ?_, hi.replies, fun e t hs => ?_⟩
  · rw [hlog] at hop
    exact hops op hop
  · exact (R.step hi (polledWith_any sv e) hs).2.fs

theorem urls_confined_m :
    Reported sampleMgr.mainAssetDir (lit "/a/m") := by
  have hrun : ((assetService sampleFrames sampleMgr.mainAssetDir sampleMgr.fs).guard
      fun _ _ => True).Run _ (sampleServed [lit "h/m"] fun _ => sampleOutcomes 2) :=
    sampleServed_run trivial trivial
  have h := urls_confined hrun.of_guard
  obtain ⟨paths, hp, hfor⟩ := h.2.2.1 0 _ _ rfl _ rfl rfl
  obtain rfl := Dict.strings_inj (congrArg Frame.data hp)
  cases hfor with
  | cons hone _ => exact hone.resolve_left (by decide)

end Acord
