import Acord.AssetPublish
import Acord.AssetRequests

/-! Runs of the asset manager: what the cache, the asset directory and the calls made so far have
to do with each other, through any requests of any sessions. -/

namespace Acord
open Ac AssetDir Transition

variable {o : Outcomes} {url v p : Str} {s t u : AssetMgr} {op : AssetOp} {fs fs' : Fs}
  {dir : AssetDir}

def HoldsFile (fs : Fs) (p : Str) : Prop := ∃ n, fs.lookup p = some n ∧ n.regular = true

/-- Directly in the asset directory, the file bit is set of regular files only. -/
def StatExact (dir : AssetDir) (fs : Fs) : Prop :=
  ∀ f n, slash ∉ f → fs (dir.target f) = some n → n.mode &&& S_IFREG ≠ 0 → n.regular = true

structure FilesExact (dir : AssetDir) (fs : Fs) : Prop where
  stat : StatExact dir fs
  dl : PlainDl dir fs

/-- The second entry of the log may come after the first: once a URL was found, it is found again,
and no call concerns its file name. -/
def After (e e' : AssetOp) : Prop :=
  ∀ u p, e = .found u p → p ≠ [] → (∀ p', e' = .found u p' → p' ≠ []) ∧ ¬ e'.Concerns (fileKey u)

structure AssetInv (s : AssetMgr) : Prop where
  exact : FilesExact s.mainAssetDir s.fs
  cache : ∀ u p, s.assetUrlToPath u = some p → p = s.targetPath u ∧ HoldsFile s.fs p
  found : ∀ u p, .found u p ∈ s.log → p ≠ [] → s.assetUrlToPath u ≠ none
  log : s.log.Pairwise After

structure Kept (s t : AssetMgr) : Prop where
  mainAssetDir : t.mainAssetDir = s.mainAssetDir
  file : ∀ f n, slash ∉ f → s.fs (s.mainAssetDir.target f) = some n → n.regular = true →
    t.fs (s.mainAssetDir.target f) = some n
  log : s.log ⊆ t.log

namespace Kept

theorem refl (s : AssetMgr) : Kept s s := ⟨rfl, fun _ _ _ h _ => h, List.Subset.refl _⟩

theorem trans (h : Kept s t) (h' : Kept t u) : Kept s u where
  mainAssetDir := h'.mainAssetDir.trans h.mainAssetDir
  file f n hf hn hreg := by
    have ht := h.file f n hf hn hreg
    rw [← h.mainAssetDir] at ht ⊢
    exact h'.file f n hf ht hreg
  log := List.Subset.trans h.log h'.log

theorem targetPath (h : Kept s t) (url : Str) : t.targetPath url = s.targetPath url := by
  unfold AssetMgr.targetPath
  rw [h.mainAssetDir]

theorem holdsFile (h : Kept s t) (hf : HoldsFile s.fs (s.targetPath url)) :
    HoldsFile t.fs (s.targetPath url) := by
  obtain ⟨n, hn, hreg⟩ := hf
  refine ⟨n, ?_, hreg⟩
  unfold AssetMgr.targetPath at hn ⊢
  rw [lookup_target (Fs.slash_notMem_getFileName url)] at hn ⊢
  split
  next hname => rwa [if_pos hname] at hn
  next hname =>
    rw [if_neg hname] at hn
    exact h.file _ n (slash_notMem_fileKey url) hn hreg

end Kept

theorem basicStat_target (hx : StatExact s.mainAssetDir s.fs) :
    (Fs.basicStat true s.fs (s.targetPath url)).isFile = true ↔
      HoldsFile s.fs (s.targetPath url) := by
  rw [Fs.basicStat_isFile]
  constructor
  · rintro ⟨_, n, hn, hbit⟩
    refine ⟨n, hn, ?_⟩
    unfold AssetMgr.targetPath at hn
    rw [lookup_target (Fs.slash_notMem_getFileName url)] at hn
    split at hn
    next hname =>
      obtain rfl := Option.some.inj hn
      exact absurd hbit (by decide)
    next hname => exact hx _ n (slash_notMem_fileKey url) hn hbit
  · rintro ⟨n, hn, hreg⟩
    exact ⟨rfl, n, hn, Fs.Node.regular_bit hreg⟩

theorem holdsFile_congr (h : fileKey url = fileKey v) :
    HoldsFile s.fs (s.targetPath url) ↔ HoldsFile s.fs (s.targetPath v) := by
  have hcut : cStr (s.targetPath url) = cStr (s.targetPath v) := by
    unfold AssetMgr.targetPath
    rw [cStr_target, cStr_target]
    exact congrArg _ h
  unfold HoldsFile Fs.lookup
  rw [hcut]

def Fresh (s : AssetMgr) (url : Str) : Prop :=
  s.assetUrlToPath url = none ∧ ¬ HoldsFile s.fs (s.targetPath url)

theorem AssetInv.fresh_after (hi : AssetInv s) (hf : Fresh s url)
    (hop : ∀ name, op.Concerns name → name = fileKey url)
    (hfound : ∀ u p, op = .found u p → u = url) :
    ∀ e ∈ s.log, After e op := by
  rintro e he u p rfl hp
  obtain ⟨q, hq⟩ := Option.ne_none_iff_exists'.mp (hi.found u p he hp)
  obtain ⟨rfl, hfile⟩ := hi.cache u q hq
  constructor
  · intro p' hop'
    rw [hfound u p' hop', hf.1] at hq
    exact absurd hq nofun
  · intro hc
    exact hf.2 ((holdsFile_congr (hop _ hc)).mp hfile)

theorem AssetInv.log_fresh (hi : AssetInv s) (hf : Fresh s url) (hc : Calls url s t) :
    t.log.Pairwise After ∧ ∀ p, (t.record (.found url p)).log.Pairwise After := by
  obtain ⟨ops, hlog, hops⟩ := hc.log
  have hpair : ∀ e ∈ ops, ∀ e', After e e' := fun e he e' u p heq => absurd heq ((hops e he).1 u p)
  have ht : t.log.Pairwise After := by
    rw [hlog, List.pairwise_append]
    refine ⟨hi.log, List.pairwise_of_forall_mem_list fun e he e' _ => hpair e he e',
      fun e he e' he' => ?_⟩
    exact hi.fresh_after hf (hops e' he').2 (fun u p heq => absurd heq ((hops e' he').1 u p)) e he
  refine ⟨ht, fun p => ?_⟩
  show (t.log ++ [AssetOp.found url p]).Pairwise After
  rw [List.pairwise_append]
  refine ⟨ht, List.pairwise_singleton _ _, fun e he e' he' => ?_⟩
  obtain rfl := List.mem_singleton.mp he'
  rw [hlog] at he
  rcases List.mem_append.mp he with he | he
  · have hnone : ∀ name, ¬ (AssetOp.found url p).Concerns name := fun _ h => h
    exact hi.fresh_after hf (fun name h => absurd h (hnone name))
      (fun u p h => (AssetOp.found.inj h).1.symm) e he
  · exact hpair e he _

theorem StatExact.scratch (hx : StatExact dir fs) (h : Scratch dir fs fs') : StatExact dir fs' := by
  intro f n hf hn hbit
  rcases h _ fun g _ => target_ne_dlPath dir hf with e | ⟨_, _, hd⟩
  · exact hx f n hf (e ▸ hn) hbit
  · obtain rfl := Option.some.inj (hd.symm.trans hn)
    exact absurd hbit (by decide)

theorem Scratch.file {f : Str} {n : Node} (h : Scratch dir fs fs') (hf : slash ∉ f)
    (hn : fs (dir.target f) = some n) : fs' (dir.target f) = some n := by
  rcases h _ fun g _ => target_ne_dlPath dir hf with e | ⟨_, hnone, _⟩
  · exact e.trans hn
  · simp [hn] at hnone

theorem AssetInv.record_found (hi : AssetInv s) (hc : s.assetUrlToPath url = some p) (hp : p ≠ []) :
    AssetInv (s.record (.found url p)) where
  exact := hi.exact
  cache := hi.cache
  found u q hm hq := by
    rcases List.mem_append.mp hm with hm | hm
    · exact hi.found u q hm hq
    · obtain ⟨rfl, rfl⟩ := AssetOp.found.inj (List.mem_singleton.mp hm)
      exact hc ▸ nofun
  log := by
    refine List.pairwise_append.mpr ⟨hi.log, List.pairwise_singleton _ _, fun e _ e' he' => ?_⟩
    obtain rfl := List.mem_singleton.mp he'
    exact fun u q _ _ => ⟨fun p' h => (AssetOp.found.inj h).2 ▸ hp, fun h => h⟩

theorem AssetInv.setPath (hi : AssetInv s) (hfile : HoldsFile s.fs (s.targetPath url)) :
    AssetInv (s.setPath url (s.targetPath url)) where
  exact := hi.exact
  cache u p hp := by
    by_cases hu : u = url
    · subst hu
      have heq : s.targetPath u = p := by simpa [AssetMgr.setPath] using hp
      exact heq ▸ ⟨rfl, hfile⟩
    · exact hi.cache u p (by simpa [AssetMgr.setPath, Function.update_of_ne hu] using hp)
  found u p hm hp := by
    by_cases hu : u = url
    · simp [AssetMgr.setPath, hu]
    · simpa [AssetMgr.setPath, Function.update_of_ne hu] using hi.found u p hm hp
  log := hi.log

theorem Failed.kept (h : Failed url s t) : Kept s t where
  mainAssetDir := h.calls.mainAssetDir
  file _ _ hf hn _ := h.scratch.file hf hn
  log := by
    obtain ⟨ops, hl, _⟩ := h.calls.log
    exact hl ▸ List.subset_append_left _ _

theorem Failed.filesExact (h : Failed url s t) (hx : FilesExact s.mainAssetDir s.fs) :
    FilesExact t.mainAssetDir t.fs where
  stat := h.calls.mainAssetDir ▸ hx.stat.scratch h.scratch
  dl := h.plainDl hx.dl

theorem AssetInv.failed (hi : AssetInv s) (hf : Fresh s url) (h : Failed url s t) :
    AssetInv t ∧ AssetInv (t.record (.found url [])) := by
  have hx := h.filesExact hi.exact
  have hcache : ∀ u p, t.assetUrlToPath u = some p → p = t.targetPath u ∧ HoldsFile t.fs p := by
    intro u p hp
    rw [h.cache] at hp
    obtain ⟨rfl, hfile⟩ := hi.cache u p hp
    exact ⟨(h.kept.targetPath u).symm, h.kept.holdsFile hfile⟩
  obtain ⟨ops, hlog, hops⟩ := h.calls.log
  have hfound : ∀ u p, .found u p ∈ t.log → p ≠ [] → t.assetUrlToPath u ≠ none := by
    intro u p hm hp
    rw [hlog] at hm
    rw [h.cache]
    rcases List.mem_append.mp hm with hm | hm
    · exact hi.found u p hm hp
    · exact absurd rfl ((hops _ hm).1 u p)
  obtain ⟨hpair, hpair'⟩ := hi.log_fresh hf h.calls
  refine ⟨⟨hx, hcache, hfound, hpair⟩, hx, hcache, fun u p hm hp => ?_, hpair' []⟩
  rcases List.mem_append.mp hm with hm | hm
  · exact hfound u p hm hp
  · exact absurd (AssetOp.found.inj (List.mem_singleton.mp hm)).2 hp

theorem Downloaded.kept (hf : Fresh s url) (h : Downloaded o url s t) : Kept s t where
  mainAssetDir := h.calls.mainAssetDir
  file f n hslash hn hreg := by
    obtain ⟨_, fs₁, m, _, _, hscratch, _, _, _, hfs⟩ := h.moved
    have hne : s.mainAssetDir.target f ≠ cStr (s.targetPath url) := by
      -- the target was free, so it is not the file `f`
      intro he
      unfold AssetMgr.targetPath at he
      rw [cStr_target, target_inj] at he
      obtain rfl : f = fileKey url := he
      refine hf.2 ⟨n, ?_, hreg⟩
      rwa [lookup_targetPath s h.name]
    rw [hfs, Fs.put_other hne]
    exact hscratch.file hslash hn
  log := by
    obtain ⟨ops, hl, _⟩ := h.calls.log
    exact hl ▸ List.subset_append_left _ _

theorem Downloaded.holdsFile (h : Downloaded o url s t) (hp : PlainDl s.mainAssetDir s.fs) :
    HoldsFile t.fs (s.targetPath url) := by
  obtain ⟨_, fs₁, m, _, _, _, hreg, _, _, hfs⟩ := h.moved
  refine ⟨m, ?_, hreg hp⟩
  rw [lookup_targetPath s h.name, hfs]
  exact put_targetPath_same fs₁ (some m) s url

theorem Downloaded.filesExact (h : Downloaded o url s t) (hx : FilesExact s.mainAssetDir s.fs) :
    FilesExact t.mainAssetDir t.fs := by
  refine ⟨?_, h.plainDl hx.dl⟩
  obtain ⟨_, fs₁, m, _, _, hscratch, hreg, _, _, hfs⟩ := h.moved
  intro f n hslash hn hbit
  rw [h.calls.mainAssetDir, hfs] at hn
  by_cases he : s.mainAssetDir.target f = cStr (s.targetPath url)
  · rw [he, Fs.put_same] at hn
    obtain rfl : m = n := Option.some.inj hn
    exact hreg hx.dl
  · rw [Fs.put_other he] at hn
    exact hx.stat.scratch hscratch f n hslash hn hbit

theorem AssetInv.downloaded (hi : AssetInv s) (hf : Fresh s url) (h : Downloaded o url s t) :
    AssetInv (t.record (.found url (s.targetPath url))) := by
  have hkept := h.kept hf
  obtain ⟨ops, hlog, hops⟩ := h.calls.log
  refine ⟨h.filesExact hi.exact, ?_, ?_, (hi.log_fresh hf h.calls).2 _⟩
  · intro u p hp
    change t.assetUrlToPath u = some p at hp
    show p = t.targetPath u ∧ HoldsFile t.fs p
    rw [hkept.targetPath]
    by_cases hu : u = url
    · subst hu
      rw [h.cache, Function.update_self] at hp
      exact Option.some.inj hp ▸ ⟨rfl, h.holdsFile hi.exact.dl⟩
    · rw [h.cache, Function.update_of_ne hu] at hp
      obtain ⟨rfl, hfile⟩ := hi.cache u p hp
      exact ⟨rfl, hkept.holdsFile hfile⟩
  · intro u p hm hp
    show t.assetUrlToPath u ≠ none
    rw [h.cache]
    by_cases hu : u = url
    · rw [hu, Function.update_self]
      exact nofun
    · rw [Function.update_of_ne hu]
      rcases List.mem_append.mp hm with hm | hm
      · rw [hlog] at hm
        rcases List.mem_append.mp hm with hm | hm
        · exact hi.found u p hm hp
        · exact absurd rfl ((hops _ hm).1 u p)
      · exact absurd (AssetOp.found.inj (List.mem_singleton.mp hm)).1 hu

def GoodPath (s : AssetMgr) (url p : Str) : Prop :=
  AssetOp.found url p ∈ s.log ∧ (p = [] ∨ p = s.targetPath url ∧ HoldsFile s.fs p)

theorem GoodPath.kept (h : Kept s t) (hg : GoodPath s url p) : GoodPath t url p := by
  refine ⟨h.log hg.1, hg.2.imp id ?_⟩
  rintro ⟨rfl, hfile⟩
  exact ⟨(h.targetPath url).symm, h.holdsFile hfile⟩

theorem Kept.record (h : Kept s t) (op : AssetOp) : Kept s (t.record op) :=
  ⟨h.mainAssetDir, h.file, List.Subset.trans h.log (List.subset_append_left _ _)⟩

theorem HoldsFile.record {p : Str} (h : HoldsFile s.fs p) (op : AssetOp) :
    HoldsFile (s.record op).fs p := h

theorem found_mem (s : AssetMgr) (url p : Str) :
    AssetOp.found url p ∈ (s.record (.found url p)).log :=
  List.mem_append_right _ (List.mem_singleton_self _)

theorem makeAvailable_inv (url : Str) (hi : AssetInv s) (ho : o.stat = true) :
    AssetInv (s.makeAvailable o url).2 ∧ Kept s (s.makeAvailable o url).2 ∧
      ∀ p, (s.makeAvailable o url).1 = .ok p → GoodPath (s.makeAvailable o url).2 url p := by
  rcases makeAvailable_cases o url s with ⟨p, hp, hm⟩ | ⟨hc, hl, hm⟩ | ⟨hc, hl, hd⟩
  · obtain ⟨rfl, hfile⟩ := hi.cache url p hp
    rw [hm]
    refine ⟨hi.record_found hp (targetPath_ne_nil s url), (Kept.refl s).record _, fun q hq => ?_⟩
    obtain rfl := Except.ok.inj hq
    exact ⟨found_mem _ _ _, .inr ⟨rfl, hfile⟩⟩
  · rw [ho, basicStat_target hi.exact.stat] at hl
    have hcached : (s.setPath url (s.targetPath url)).assetUrlToPath url =
        some (s.targetPath url) :=
      Function.update_self _ _ _
    rw [hm]
    refine ⟨(hi.setPath hl).record_found hcached (targetPath_ne_nil s url), ?_, fun q hq => ?_⟩
    · have hkept : Kept s (s.setPath url (s.targetPath url)) :=
        ⟨rfl, fun _ _ _ h _ => h, List.Subset.refl _⟩
      exact hkept.record _
    · obtain rfl := Except.ok.inj hq
      exact ⟨found_mem _ _ _, .inr ⟨rfl, hl⟩⟩
  · -- neither cached nor in the directory, so no entry of the log forbids the calls of a download
    have hfresh : Fresh s url := by
      rw [ho] at hl
      exact ⟨hc, fun hfile => by simp [(basicStat_target hi.exact.stat).mpr hfile] at hl⟩
    rcases hd with ⟨e, hm, hfail⟩ | ⟨_, hm, hfail, _⟩ | ⟨hm, _, hdone⟩
    · rw [hm]
      exact ⟨(hi.failed hfresh hfail).1, hfail.kept, fun p hp => nomatch hp⟩
    · rw [hm]
      refine ⟨(hi.failed hfresh hfail).2, hfail.kept.record _, fun q hq => ?_⟩
      obtain rfl := Except.ok.inj hq
      exact ⟨found_mem _ _ _, .inl rfl⟩
    · have hfile := (hdone.holdsFile hi.exact.dl).record (.found url (s.targetPath url))
      have hlog := (hdone.kept hfresh).record (.found url (s.targetPath url))
      rw [hm]
      refine ⟨hi.downloaded hfresh hdone, hlog, fun q hq => ?_⟩
      obtain rfl := Except.ok.inj hq
      exact ⟨found_mem _ _ _, .inr ⟨(hlog.targetPath url).symm, hfile⟩⟩

/-! Runs. -/

def StatSucceeds (_ : Str) (o : Outcomes) : Prop := o.stat = true

theorem resolutionRule (dir : AssetDir) :
    UrlRule StatSucceeds (fun s => AssetInv s ∧ s.mainAssetDir = dir) Kept GoodPath where
  refl := Kept.refl
  trans := Kept.trans
  stable := GoodPath.kept
  serve := by
    rintro o url s ho ⟨hi, hd⟩
    obtain ⟨hi', hkept, hgood⟩ := makeAvailable_inv url hi ho
    exact ⟨⟨hi', hkept.mainAssetDir.trans hd⟩, hkept, hgood⟩

theorem FilesExact.empty (dir : AssetDir) : FilesExact dir fun _ => none :=
  ⟨fun _ _ _ hn => (nomatch hn), fun _ _ _ hn => (nomatch hn)⟩

theorem AssetInv.construct (hx : FilesExact dir fs) : AssetInv (.construct dir fs) where
  exact := hx
  cache _ _ h := nomatch h
  found _ _ h := nomatch h
  log := .nil

variable {lib : FrameLib} {tr : List AssetEvent} {sv : AssetService}

/-- In every run over a directory where `basicStat` is right, with no fifo and no device in the
download directory, replies and cache only name files that are there, a URL that was found stays
found and its file name is left alone, and no step loses or changes a file of the directory. -/
theorem asset_resolution (hx : FilesExact dir fs)
    (h : ((assetService lib dir fs).guard (PolledWith StatSucceeds)).Run tr sv) :
    sv.mgr.mainAssetDir = dir ∧
    (∀ i cmd reply, sv.sessions i = .replying cmd reply → RepliesWith GoodPath sv.mgr cmd reply) ∧
    (∀ u p, sv.mgr.assetUrlToPath u = some p → p = sv.mgr.targetPath u ∧ HoldsFile sv.mgr.fs p) ∧
    sv.mgr.log.Pairwise After ∧
    ∀ e t, ((assetService lib dir fs).guard (PolledWith StatSucceeds)).step sv e t →
      Kept sv.mgr t.mgr := by
  have hi := (resolutionRule dir).run ⟨.construct hx, rfl⟩ h
  have hinv : AssetInv sv.mgr := hi.mgr.1
  exact ⟨hi.mgr.2, hi.replies, hinv.cache, hinv.log,
    fun e t hs => ((resolutionRule dir).step hi hs.1 hs.2).2⟩

theorem asset_resolution_m :
    HoldsFile (sampleServed [lit "h/m"] fun _ => sampleOutcomes 2).mgr.fs (lit "/a/m") := by
  have ho : PolledWith StatSucceeds (sampleService.put 0 .polling)
      (.polled 0 (urlsRequest [lit "h/m"]) fun _ => sampleOutcomes 2) := fun _ _ _ => rfl
  have h := asset_resolution (.empty sampleMgr.mainAssetDir) (sampleServed_run trivial ho)
  exact (h.2.2.1 (lit "h/m") (lit "/a/m") rfl).2

def deviceFs : Fs := fun p =>
  if p = lit "/a/.acord-dl" then some newDir
  else if p = lit "/a/.acord-dl/m" then some ⟨0o020666, []⟩
  else none

theorem deviceFs_statExact : StatExact sampleMgr.mainAssetDir deviceFs := by
  intro f n _ hn hbit
  unfold deviceFs at hn
  split at hn
  · obtain rfl := Option.some.inj hn
    exact absurd hbit (by decide)
  · split at hn
    · obtain rfl := Option.some.inj hn
      exact absurd hbit (by decide)
    · cases hn

/-- The device is opened, renamed into the asset directory and reported, and it is no file. -/
theorem device_reported : ∃ tr sv, StatExact sampleMgr.mainAssetDir deviceFs ∧
    ((assetService sampleFrames sampleMgr.mainAssetDir deviceFs).guard
      (PolledWith StatSucceeds)).Run tr sv ∧
    sv.sessions 0 = .replying (urlsRequest [lit "h/m"]) (assetsFrame [lit "/a/m"]) ∧
    sv.mgr.assetUrlToPath (lit "h/m") = some (lit "/a/m") ∧ ¬ HoldsFile sv.mgr.fs (lit "/a/m") := by
  let s₀ : AssetService := ⟨.construct sampleMgr.mainAssetDir deviceFs, fun _ => .greeting⟩
  have ho : PolledWith StatSucceeds (s₀.put 0 .polling)
      (.polled 0 (urlsRequest [lit "h/m"]) fun _ => sampleOutcomes 2) := fun _ _ _ => rfl
  have hrun : ((assetService sampleFrames sampleMgr.mainAssetDir deviceFs).guard
      (PolledWith StatSucceeds)).Run _ _ := servedFirst_run rfl trivial ho
  refine ⟨_, _, deviceFs_statExact, hrun, rfl, rfl, ?_⟩
  rintro ⟨n, hn, hreg⟩
  obtain rfl : ⟨0o020666, [1, 2]⟩ = n := Option.some.inj hn
  exact absurd hreg (by decide)

end Acord
