import Acord.AssetRuns

/-! The asset directory while other programs change it between requests: what is looked up is
there when it is reported, what is remembered was there when it was found. -/

namespace Acord
open Ac AssetDir Transition

def S_IFBLK : Nat := 0o060000
def S_IFCHR : Nat := 0o020000
def S_IFIFO : Nat := 0o010000

def Node.Plain (n : Node) : Prop :=
  n.mode &&& S_IFMT ∈ [S_IFREG, S_IFDIR, S_IFBLK, S_IFCHR, S_IFIFO]

/-- No sockets in the asset directory, no fifos and no devices in the download directory. -/
structure PlainDirs (dir : AssetDir) (fs : Fs) : Prop where
  main : ∀ f n, slash ∉ f → fs (dir.target f) = some n → n.Plain
  dl : PlainDl dir fs

variable {dir : AssetDir} {o : Outcomes} {url u p : Str} {s s₀ t v : AssetMgr} {fs : Fs}

theorem Node.Plain.exact {n : Node} (h : n.Plain) (hbit : n.mode &&& S_IFREG ≠ 0) :
    n.regular = true := by
  have hmask : n.mode &&& S_IFREG = n.mode &&& S_IFMT &&& S_IFREG :=
    (Nat.and_assoc n.mode S_IFMT S_IFREG).symm
  rw [hmask] at hbit
  unfold Node.Plain at h
  simp only [List.mem_cons, List.not_mem_nil, or_false] at h
  rcases h with h | h | h | h | h <;> rw [h] at hbit
  · simp [Node.regular, h]
  all_goals exact absurd hbit (by decide)

theorem PlainDirs.filesExact (h : PlainDirs dir fs) : FilesExact dir fs :=
  ⟨fun f n hf hn hbit => (h.main f n hf hn).exact hbit, h.dl⟩

-- a socket has the bit of a regular file
example : (Fs.basicStat true (fun _ => some ⟨S_IFSOCK, []⟩) (lit "/a/s")).isFile = true := by decide

structure Looked (s t : AssetMgr) : Prop where
  mainAssetDir : t.mainAssetDir = s.mainAssetDir
  file : ∀ u, HoldsFile s.fs (s.targetPath u) → HoldsFile t.fs (s.targetPath u)
  kept : ∀ u p, s.assetUrlToPath u = some p → t.assetUrlToPath u = some p
  added : ∀ u p, t.assetUrlToPath u = some p →
    s.assetUrlToPath u = some p ∨ (p = s.targetPath u ∧ HoldsFile t.fs p)

namespace Looked

theorem refl (s : AssetMgr) : Looked s s :=
  ⟨rfl, fun _ h => h, fun _ _ h => h, fun _ _ h => .inl h⟩

theorem targetPath (h : Looked s t) (u : Str) : t.targetPath u = s.targetPath u := by
  unfold AssetMgr.targetPath
  rw [h.mainAssetDir]

theorem trans (h : Looked s t) (h' : Looked t v) : Looked s v where
  mainAssetDir := h'.mainAssetDir.trans h.mainAssetDir
  file u hf := by
    have ht := h'.file u
    rw [h.targetPath] at ht
    exact ht (h.file u hf)
  kept u p hp := h'.kept u p (h.kept u p hp)
  added u p hp := by
    have hfile := h'.file u
    rw [h.targetPath] at hfile
    rcases h'.added u p hp with ht | ⟨rfl, hv⟩
    · rcases h.added u p ht with hs | ⟨rfl, ht⟩
      · exact .inl hs
      · exact .inr ⟨rfl, hfile ht⟩
    · rw [h.targetPath] at hv ⊢
      exact .inr ⟨rfl, hv⟩

theorem record (h : Looked s t) (op : AssetOp) : Looked s (t.record op) :=
  ⟨h.mainAssetDir, h.file, h.kept, h.added⟩

end Looked

theorem Failed.looked (h : Failed url s t) : Looked s t where
  mainAssetDir := h.calls.mainAssetDir
  file _ := h.kept.holdsFile
  kept _ _ hp := h.cache ▸ hp
  added _ _ hp := .inl (h.cache ▸ hp)

theorem looked_setPath (hc : s.assetUrlToPath url = none)
    (hfile : HoldsFile t.fs (s.targetPath url)) (hd : t.mainAssetDir = s.mainAssetDir)
    (hkeep : ∀ u, HoldsFile s.fs (s.targetPath u) → HoldsFile t.fs (s.targetPath u))
    (h : t.assetUrlToPath = Function.update s.assetUrlToPath url (some (s.targetPath url))) :
    Looked s t where
  mainAssetDir := hd
  file := hkeep
  kept u p hp := by
    have hu : u ≠ url := by
      rintro rfl
      rw [hc] at hp
      cases hp
    rwa [h, Function.update_of_ne hu]
  added u p hp := by
    rw [h] at hp
    by_cases hu : u = url
    · subst hu
      rw [Function.update_self] at hp
      obtain rfl := Option.some.inj hp
      exact .inr ⟨rfl, hfile⟩
    · rw [Function.update_of_ne hu] at hp
      exact .inl hp

theorem Downloaded.stillFile (h : Downloaded o url s t) (hp : PlainDl s.mainAssetDir s.fs)
    (u : Str) (hu : HoldsFile s.fs (s.targetPath u)) : HoldsFile t.fs (s.targetPath u) := by
  by_cases hkey : fileKey u = fileKey url
  · have hfile := h.holdsFile hp
    have hd : ∀ w, t.targetPath w = s.targetPath w := by
      intro w
      unfold AssetMgr.targetPath
      rw [h.calls.mainAssetDir]
    rw [← hd] at hfile ⊢
    exact (holdsFile_congr hkey).mpr hfile
  · obtain ⟨n, hn, hreg⟩ := hu
    obtain ⟨_, fs₁, m, _, _, hscratch, _, _, _, hfs⟩ := h.moved
    refine ⟨n, ?_, hreg⟩
    unfold AssetMgr.targetPath at hn ⊢
    rw [lookup_target (Fs.slash_notMem_getFileName u)] at hn ⊢
    split
    next hname => rwa [if_pos hname] at hn
    next hname =>
      rw [if_neg hname] at hn
      rw [hfs, Fs.put_other]
      · exact hscratch.file (slash_notMem_fileKey u) hn
      · rw [cStr_targetPath]
        exact fun he => hkey ((target_inj _).mp he)

theorem basicStat_holdsFile {ok : Bool} (hx : StatExact s.mainAssetDir s.fs)
    (h : (Fs.basicStat ok s.fs (s.targetPath url)).isFile = true) :
    HoldsFile s.fs (s.targetPath url) := by
  obtain ⟨rfl, _⟩ := Fs.basicStat_isFile.mp h
  exact (basicStat_target hx).mp h

def FilePath (s : AssetMgr) (u p : Str) : Prop := p = [] ∨ (p = s.targetPath u ∧ HoldsFile s.fs p)

theorem FilePath.looked (h : Looked s t) (hp : FilePath s u p) : FilePath t u p := by
  refine hp.imp_right ?_
  rintro ⟨rfl, hf⟩
  exact ⟨(h.targetPath u).symm, h.file u hf⟩

/-- What a URL is answered with: the remembered path, or else none or that of a file. -/
def AnsweredSince (s₀ s : AssetMgr) (u p : Str) : Prop :=
  match s₀.assetUrlToPath u with
  | some q => p = q
  | none => FilePath s u p

theorem answeredSince_cached (h : s₀.assetUrlToPath u = some p) : AnsweredSince s₀ s u p := by
  simp only [AnsweredSince, h]

theorem answeredSince_looked (hc : s₀.assetUrlToPath u = none)
    (h : FilePath s u p) : AnsweredSince s₀ s u p := by
  simpa only [AnsweredSince, hc] using h

theorem AnsweredSince.looked (h : Looked s t) (ha : AnsweredSince s₀ s u p) :
    AnsweredSince s₀ t u p := by
  unfold AnsweredSince at ha ⊢
  split
  next q hq => simpa only [hq] using ha
  next hq =>
    simp only [hq] at ha
    exact ha.looked h

theorem AnsweredSince.trans (h : Looked s₀ s) (ht : Looked s t) (ha : AnsweredSince s t u p) :
    AnsweredSince s₀ t u p := by
  unfold AnsweredSince at ha ⊢
  split
  next q hq => simpa only [h.kept u q hq] using ha
  next hq =>
    split at ha
    next q hs =>
      subst ha
      rcases h.added u p hs with h₀ | ⟨rfl, hf⟩
      · rw [hq] at h₀
        cases h₀
      · have hpath : FilePath s u (s₀.targetPath u) := .inr ⟨(h.targetPath u).symm, hf⟩
        exact hpath.looked ht
    next hs => exact ha

theorem FilesExact.record (h : FilesExact s.mainAssetDir s.fs) (op : AssetOp) :
    FilesExact (s.record op).mainAssetDir (s.record op).fs := h

theorem makeAvailable_looked (o : Outcomes) (url : Str) (hx : FilesExact s.mainAssetDir s.fs) :
    FilesExact (s.makeAvailable o url).2.mainAssetDir (s.makeAvailable o url).2.fs ∧
      Looked s (s.makeAvailable o url).2 ∧
      ∀ p, (s.makeAvailable o url).1 = .ok p → AnsweredSince s (s.makeAvailable o url).2 url p := by
  rcases makeAvailable_cases o url s with ⟨p, hp, hm⟩ | ⟨hc, hl, hm⟩ | ⟨hc, hl, hd⟩
  · rw [hm]
    refine ⟨hx, (Looked.refl s).record _, fun q hq => ?_⟩
    obtain rfl := Except.ok.inj hq
    exact answeredSince_cached hp
  · have hfile := basicStat_holdsFile hx.stat hl
    rw [hm]
    have hlooked : Looked s (s.setPath url (s.targetPath url)) :=
      looked_setPath hc hfile rfl (fun _ h => h) rfl
    refine ⟨hx, hlooked.record _, fun q hq => ?_⟩
    obtain rfl := Except.ok.inj hq
    exact answeredSince_looked hc (.inr ⟨rfl, hfile⟩)
  · rcases hd with ⟨e, hm, hfail⟩ | ⟨_, hm, hfail, _⟩ | ⟨hm, _, hdone⟩
    · rw [hm]
      exact ⟨hfail.filesExact hx, hfail.looked, fun p hp => nomatch hp⟩
    · rw [hm]
      refine ⟨(hfail.filesExact hx).record _, hfail.looked.record _, fun q hq => ?_⟩
      obtain rfl := Except.ok.inj hq
      exact answeredSince_looked hc (.inl rfl)
    · have hfile := hdone.holdsFile hx.dl
      have hlooked := looked_setPath hc hfile hdone.calls.mainAssetDir (hdone.stillFile hx.dl)
        hdone.cache
      rw [hm]
      have hlog := hlooked.record (.found url (s.targetPath url))
      refine ⟨(hdone.filesExact hx).record _, hlog, fun q hq => ?_⟩
      obtain rfl := Except.ok.inj hq
      exact answeredSince_looked hc (.inr ⟨(hlog.targetPath url).symm, hfile.record _⟩)

structure CacheInv (s : AssetMgr) : Prop where
  exact : FilesExact s.mainAssetDir s.fs
  cache : ∀ u p, s.assetUrlToPath u = some p → p = s.targetPath u ∧ HoldsFile s.fs p

theorem CacheInv.looked (hi : CacheInv s) (hx : FilesExact t.mainAssetDir t.fs) (h : Looked s t) :
    CacheInv t where
  exact := hx
  cache u p hp := by
    rcases h.added u p hp with hold | ⟨rfl, hf⟩
    · obtain ⟨rfl, hf⟩ := hi.cache u p hold
      exact ⟨(h.targetPath u).symm, h.file u hf⟩
    · exact ⟨(h.targetPath u).symm, hf⟩

theorem CacheInv.filePath (hi : CacheInv s) (h : Looked s t) (ha : AnsweredSince s t u p) :
    FilePath t u p := by
  unfold AnsweredSince at ha
  split at ha
  next q hq =>
    subst ha
    obtain ⟨rfl, hf⟩ := hi.cache u p hq
    exact .inr ⟨(h.targetPath u).symm, h.file u hf⟩
  next => exact ha

theorem CacheInv.construct (hx : FilesExact dir fs) : CacheInv (.construct dir fs) where
  exact := hx
  cache _ _ h := nomatch h

theorem makeAvailable_file (o : Outcomes) (url : Str) (hi : CacheInv s) :
    CacheInv (s.makeAvailable o url).2 ∧ Looked s (s.makeAvailable o url).2 ∧
      ∀ p, (s.makeAvailable o url).1 = .ok p → FilePath (s.makeAvailable o url).2 url p := by
  obtain ⟨hx, hl, hp⟩ := makeAvailable_looked o url hi.exact
  exact ⟨hi.looked hx hl, hl, fun p h => hi.filePath hl (hp p h)⟩

theorem fileRule : UrlRule AnyOutcomes CacheInv Looked FilePath where
  refl := Looked.refl
  trans := Looked.trans
  stable := FilePath.looked
  serve _ hi := makeAvailable_file _ _ hi

/-! The service and the other programs. -/

inductive SharedEvent
  | served (e : AssetEvent)
  | changed (fs : Fs)

inductive SharedStep (lib : FrameLib) : AssetService → SharedEvent → AssetService → Prop
  | served {s t : AssetService} {e : AssetEvent} (h : AssetStep lib s e t) :
      SharedStep lib s (.served e) t
  | changed {s : AssetService} (fs : Fs) :
      SharedStep lib s (.changed fs) { s with mgr := s.mgr.setFs fs }

def sharedDir (lib : FrameLib) (dir : AssetDir) (fs : Fs) : System AssetService SharedEvent :=
  ⟨(assetService lib dir fs).init, SharedStep lib⟩

/-- No program puts a socket into the asset directory, or a fifo or a device where assets are
downloaded. -/
def PutsPlain (dir : AssetDir) (_ : AssetService) : SharedEvent → Prop
  | .changed fs => PlainDirs dir fs
  | .served _ => True

variable {lib : FrameLib} {sv tv : AssetService} {e : AssetEvent} {tr : List SharedEvent}

theorem run_served (h : ((sharedDir lib dir fs).guard (PutsPlain dir)).Run tr sv)
    (hs : AssetStep lib sv e tv) :
    ((sharedDir lib dir fs).guard (PutsPlain dir)).Run (tr ++ [.served e]) tv :=
  h.next ⟨trivial, .served hs⟩

def WasFile (lib : FrameLib) (dir : AssetDir) (fs : Fs) (tr : List SharedEvent) (u p : Str) :
    Prop :=
  ∃ pre s, pre <+: tr ∧ ((sharedDir lib dir fs).guard (PutsPlain dir)).Run pre s ∧
    s.mgr.assetUrlToPath u = some p ∧ HoldsFile s.mgr.fs p

theorem WasFile.mono (h : WasFile lib dir fs tr u p) (tr' : List SharedEvent) :
    WasFile lib dir fs (tr ++ tr') u p := by
  obtain ⟨pre, s, hpre, hrun, hc, hf⟩ := h
  exact ⟨pre, s, hpre.trans (List.prefix_append tr tr'), hrun, hc, hf⟩

end Acord
