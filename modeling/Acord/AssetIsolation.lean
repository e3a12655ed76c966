import Acord.AssetDownload
import Acord.AssetRequests

/-! States of the asset manager that no later request can tell apart: a URL that was not obtained
leaves the others as they were. -/

namespace Acord
open Ac AssetDir

variable {o : Outcomes} {url p : Str} {s t u : AssetMgr} {dir : AssetDir} {fs fs' fs'' : Fs}
  {f : Str}

def dirMode (n : Option Node) : Nat := (n.getD newDir).mode

structure FsAlike (dir : AssetDir) (fs fs' : Fs) : Prop where
  target : ∀ f, slash ∉ f → f ≠ lit ".acord-dl" → fs' (dir.target f) = fs (dir.target f)
  dlDir : dirMode (fs' dir.dlDir) = dirMode (fs dir.dlDir)
  modes : SameModes dir fs fs'

namespace FsAlike

theorem refl (fs : Fs) : FsAlike dir fs fs := ⟨fun _ _ _ => rfl, rfl, .refl fs⟩

theorem symm (h : FsAlike dir fs fs') : FsAlike dir fs' fs :=
  ⟨fun f hf hne => (h.target f hf hne).symm, h.dlDir.symm, fun f hf => (h.modes f hf).symm⟩

theorem trans (h : FsAlike dir fs fs') (h' : FsAlike dir fs' fs'') : FsAlike dir fs fs'' :=
  ⟨fun f hf hne => (h'.target f hf hne).trans (h.target f hf hne), h'.dlDir.trans h.dlDir,
    h.modes.trans h'.modes⟩

theorem of_scratch (h : Scratch dir fs fs') (hm : SameModes dir fs fs') : FsAlike dir fs fs' where
  target f hf hne := h.target hf hne
  dlDir := by
    rcases h dir.dlDir fun g _ => dlDir_ne_dlPath dir g with e | ⟨_, hn, hd⟩
    · rw [e]
    · rw [hn, hd]
      rfl
  modes := hm

theorem put (h : FsAlike dir fs fs') (p : Str) (n : Option Node) :
    FsAlike dir (fs.put p n) (fs'.put p n) := by
  have hkey : ∀ k, (fs.put p n k = n ∧ fs'.put p n k = n) ∨
      (fs.put p n k = fs k ∧ fs'.put p n k = fs' k) := by
    intro k
    by_cases hk : k = cStr p
    · rw [hk]
      exact .inl ⟨Fs.put_same fs p n, Fs.put_same fs' p n⟩
    · exact .inr ⟨Fs.put_other hk, Fs.put_other hk⟩
  refine ⟨fun f hf hne => ?_, ?_, fun f hf => ?_⟩
  · rcases hkey (dir.target f) with ⟨h1, h2⟩ | ⟨h1, h2⟩
    · rw [h1, h2]
    · rw [h1, h2]
      exact h.target f hf hne
  · rcases hkey dir.dlDir with ⟨h1, h2⟩ | ⟨h1, h2⟩
    · rw [h1, h2]
    · rw [h1, h2]
      exact h.dlDir
  · rcases hkey (dir.dlPath f) with ⟨h1, h2⟩ | ⟨h1, h2⟩
    · rw [h1, h2]
    · rw [h1, h2]
      exact h.modes f hf

end FsAlike

theorem openable_eq (hf : slash ∉ f) : fs.openable (dir.dlPath f) =
    (decide (cStr f ∉ Fs.dirNames) && Node.openable ⟨fileMode (fs (dir.dlPath (cStr f))), []⟩) := by
  unfold Fs.openable
  rw [lookup_dlPath hf]
  by_cases hname : cStr f ∈ Fs.dirNames
  · simp [hname, newDir_not_openable]
  · rw [if_neg hname]
    cases fs (dir.dlPath (cStr f)) with
    | none => simp only [hname, not_false_eq_true, decide_true, Bool.true_and]; rfl
    | some n => simp only [hname, not_false_eq_true, decide_true, Bool.true_and]; rfl

theorem SameModes.openable (h : SameModes dir fs fs') (hf : slash ∉ f) :
    fs'.openable (dir.dlPath f) = fs.openable (dir.dlPath f) := by
  rw [openable_eq hf, openable_eq hf, h _ (cStr_noSlash hf)]

theorem createDirectories_isSome (ok : Bool) : (Fs.createDirectories ok fs dir.dlDir).isSome =
    (ok && (fs dir.dlDir).all Node.directory) := by
  unfold Fs.createDirectories
  rw [lookup_dlDir]
  cases ok with
  | false => rfl
  | true =>
    cases fs dir.dlDir with
    | none => rfl
    | some n => cases hd : n.directory <;> simp [hd]

theorem all_directory (n : Option Node) :
    n.all Node.directory = Node.directory ⟨dirMode n, []⟩ := by
  cases n with
  | none => decide
  | some n => rfl

theorem touch_fst (mkdirOk fopenOk : Bool) (hf : slash ∉ f) :
    (Fs.touch mkdirOk fopenOk fs (dir.dlPath f)).1 =
      if (Fs.createDirectories mkdirOk fs dir.dlDir).isSome then
        if fopenOk && fs.openable (dir.dlPath f) then .ok ()
        else .error (Fs.touchError (dir.dlPath f))
      else .error (.error (lit "filesystem error: cannot create directories")) := by
  -- whether touching a file succeeds, and how it fails, is told by modes
  have hparent : Fs.parentPath (dir.dlPath f) = dir.dlDir := parentPath_dlPath _ hf
  unfold Fs.touch
  simp only [hparent, if_neg dir.dlDir_ne_nil]
  cases hd : Fs.createDirectories mkdirOk fs dir.dlDir with
  | none => rfl
  | some fs₁ =>
    have hopen := (createDirectories_scratch hd).2.1.openable hf
    simp only [Option.isSome_some, ↓reduceIte]
    rw [← hopen]
    unfold Fs.fopenAppend
    cases hok : fopenOk && fs₁.openable (dir.dlPath f) <;> simp

/-- `fs::touch` of the temporary file succeeds: the download directory is there or can be made, and
the file can be opened. -/
structure Touchable (o : Outcomes) (url : Str) (s : AssetMgr) : Prop where
  mkdir : o.mkdir = true
  dlDir : (s.fs s.mainAssetDir.dlDir).all Node.directory = true
  fopen : o.fopen = true
  openable : s.fs.openable (s.dlPath url) = true

structure Movable (o : Outcomes) (url : Str) (s : AssetMgr) : Prop where
  mv : o.mv = true
  name : fileKey url ≠ lit ".acord-dl"
  free : ¬ Blocked s.fs s url

theorem touched_iff : (touched o url s).1 = .ok () ↔ Touchable o url s := by
  have hf := Fs.slash_notMem_getFileName url
  show (Fs.touch o.mkdir o.fopen s.fs (s.mainAssetDir.dlPath (Fs.getFileName url))).1 = _ ↔ _
  rw [touch_fst _ _ hf, createDirectories_isSome]
  constructor
  · intro h
    split at h
    next hdir =>
      split at h
      next hopen =>
        rw [Bool.and_eq_true] at hdir hopen
        exact ⟨hdir.1, hdir.2, hopen.1, hopen.2⟩
      next => simp at h
    next => simp at h
  · rintro ⟨hmkdir, hdir, hfopen, hopen⟩
    have hopen' : s.fs.openable (s.mainAssetDir.dlPath (Fs.getFileName url)) = true := hopen
    simp [hmkdir, hdir, hfopen, hopen']

theorem opens_iff : Opens o url s ↔ Touchable o url s ∧ o.ofsOpen = true := by
  unfold Opens Fs.ofstreamOpen
  rw [touched_iff]
  constructor
  · rintro ⟨htouch, hopen⟩
    refine ⟨htouch, ?_⟩
    split at hopen
    next hok => exact (Bool.and_eq_true_iff.mp hok).1
    next => simp at hopen
  · rintro ⟨htouch, hopen⟩
    have hopenable := touched_openable (touched_iff.mpr htouch)
    exact ⟨htouch, by simp [hopen, hopenable]⟩

theorem movable_iff (h : Touchable o url s) :
    Movable o url s ↔ o.mv = true ∧ ¬ Blocked (touched o url s).2 s url := by
  have hmade := touched_dlDir (touched_iff.mpr h)
  have hsame : fileKey url ≠ lit ".acord-dl" →
      (Blocked (touched o url s).2 s url ↔ Blocked s.fs s url) := by
    intro hne
    unfold Blocked
    rw [(touched_scratch o url s).target (slash_notMem_fileKey url) hne]
  constructor
  · rintro ⟨hmv, hne, hfree⟩
    exact ⟨hmv, fun hb => hfree ((hsame hne).mp hb)⟩
  · rintro ⟨hmv, hfree⟩
    have hne : fileKey url ≠ lit ".acord-dl" := by
      intro he
      obtain ⟨d, hd, hdir⟩ := hmade
      rw [dlDir_eq_target, ← he] at hd
      exact hfree ⟨d, hd, hdir⟩
    exact ⟨hmv, hne, fun hb => hfree ((hsame hne).mpr hb)⟩

structure Alike (s t : AssetMgr) : Prop where
  mainAssetDir : t.mainAssetDir = s.mainAssetDir
  cache : t.assetUrlToPath = s.assetUrlToPath
  fs : FsAlike s.mainAssetDir s.fs t.fs

theorem Failed.alike (h : Failed url s t) : Alike s t :=
  ⟨h.calls.mainAssetDir, h.cache, .of_scratch h.scratch h.modes⟩

namespace Alike

theorem refl (s : AssetMgr) : Alike s s := ⟨rfl, rfl, .refl _⟩

theorem symm (h : Alike s t) : Alike t s :=
  ⟨h.mainAssetDir.symm, h.cache.symm, h.mainAssetDir ▸ h.fs.symm⟩

theorem trans (h : Alike s t) (h' : Alike t u) : Alike s u :=
  ⟨h'.mainAssetDir.trans h.mainAssetDir, h'.cache.trans h.cache,
    h.fs.trans (h.mainAssetDir ▸ h'.fs)⟩

theorem record (h : Alike s t) (op op' : AssetOp) : Alike (s.record op) (t.record op') :=
  ⟨h.mainAssetDir, h.cache, h.fs⟩

theorem targetPath (h : Alike s t) (url : Str) : t.targetPath url = s.targetPath url := by
  unfold AssetMgr.targetPath
  rw [h.mainAssetDir]

theorem dlPath (h : Alike s t) (url : Str) : t.dlPath url = s.dlPath url := by
  unfold AssetMgr.dlPath
  rw [h.mainAssetDir]

theorem touched_fst (h : Alike s t) (o : Outcomes) (url : Str) :
    (touched o url t).1 = (touched o url s).1 := by
  have hf := Fs.slash_notMem_getFileName url
  have hdl : t.dlPath url = s.mainAssetDir.dlPath (Fs.getFileName url) := h.dlPath url
  unfold touched
  rw [hdl]
  show _ = (Fs.touch o.mkdir o.fopen s.fs (s.mainAssetDir.dlPath (Fs.getFileName url))).1
  rw [touch_fst _ _ hf, touch_fst _ _ hf, createDirectories_isSome, createDirectories_isSome,
    all_directory, all_directory, h.fs.dlDir, h.fs.modes.openable hf]

theorem touched_snd (h : Alike s t) (o : Outcomes) (url : Str) :
    FsAlike s.mainAssetDir (touched o url s).2 (touched o url t).2 := by
  have hs : FsAlike s.mainAssetDir s.fs (touched o url s).2 :=
    .of_scratch (touched_scratch o url s) (touched_modes o url s)
  have ht : FsAlike s.mainAssetDir t.fs (touched o url t).2 :=
    h.mainAssetDir ▸ .of_scratch (touched_scratch o url t) (touched_modes o url t)
  exact (hs.symm.trans h.fs).trans ht

theorem opens (h : Alike s t) (ho : Opens o url s) : Opens o url t := by
  refine ⟨(h.touched_fst o url).trans ho.1, ?_⟩
  have hsome := ho.2
  unfold Fs.ofstreamOpen at hsome ⊢
  rw [h.dlPath url]
  have hopen := (h.touched_snd o url).modes.openable (Fs.slash_notMem_getFileName url)
  change Fs.openable _ (s.dlPath url) = Fs.openable _ (s.dlPath url) at hopen
  rw [hopen]
  split at hsome
  next hc => simp [hc]
  next => exact nomatch hsome

theorem blocked (h : Alike s t) (hne : fileKey url ≠ lit ".acord-dl") :
    Blocked (touched o url t).2 t url ↔ Blocked (touched o url s).2 s url := by
  unfold Blocked
  rw [h.mainAssetDir, (h.touched_snd o url).target _ (slash_notMem_fileKey url) hne]

theorem published (h : Alike s t) (hopens : Opens o url s) (hne : fileKey url ≠ lit ".acord-dl")
    (hs : Downloaded o url s u)
    (ht : Opens o url t → ∀ chunks, Completes o chunks → o.mv = true →
      Blocked (touched o url t).2 t url) : False := by
  obtain ⟨chunks, hc, hmv, hfree, _⟩ := hs.file
  exact hfree ((h.blocked hne).mp (ht (h.opens hopens) chunks hc hmv))

theorem downloaded {s' t' : AssetMgr} (h : Alike s t) (hs : Downloaded o url s s')
    (ht : Downloaded o url t t') : Alike s' t' := by
  obtain ⟨chunks, hc, _, _, hfs⟩ := hs.file
  obtain ⟨chunks', hc', _, _, hfs'⟩ := ht.file
  obtain rfl := hc.unique hc'
  have hmode : openedFile o url t = openedFile o url s := by
    unfold openedFile
    rw [h.mainAssetDir, (h.touched_snd o url).modes _ (slash_notMem_fileKey url)]
  rw [h.dlPath, h.targetPath, hmode] at hfs'
  refine ⟨?_, ?_, ?_⟩
  · rw [ht.calls.mainAssetDir, hs.calls.mainAssetDir, h.mainAssetDir]
  · rw [ht.cache, hs.cache, h.cache, h.targetPath]
  · rw [hs.calls.mainAssetDir, hfs, hfs']
    exact ((h.touched_snd o url).put _ _).put _ _

theorem download (h : Alike s t) : (t.download o url).1 = (s.download o url).1 ∧
    Alike (s.download o url).2 (t.download o url).2 := by
  -- touching ends alike in both states, and then the rename finds the same at the target
  have htouch := h.touched_fst o url
  rcases download_cases o url s with
    ⟨e, hs, hr, hfail⟩ | ⟨hs, hr, hfail, hblock, _⟩ | ⟨hs, hr, hne, hdone⟩
  · rcases download_cases o url t with ⟨e', ht, hr', hfail'⟩ | ⟨ht, _⟩ | ⟨ht, _⟩
    · rw [ht, hs] at htouch
      rw [hr, hr']
      exact ⟨Except.error.inj htouch ▸ rfl, (hfail.alike.symm.trans h).trans hfail'.alike⟩
    · simp [ht, hs] at htouch
    · simp [ht.1, hs] at htouch
  · rcases download_cases o url t with ⟨e', ht, _⟩ | ⟨_, hr', hfail', _⟩ | ⟨ht, _, hne, hdone⟩
    · simp [ht, hs] at htouch
    · rw [hr, hr']
      exact ⟨rfl, (hfail.alike.symm.trans h).trans hfail'.alike⟩
    · exact (h.symm.published ht hne hdone hblock).elim
  · rcases download_cases o url t with ⟨e', ht, _⟩ | ⟨_, _, _, hblock, _⟩ | ⟨_, hr', _, hdone'⟩
    · simp [ht, hs.1] at htouch
    · exact (h.published hs hne hdone hblock).elim
    · rw [hr, hr', h.targetPath]
      exact ⟨rfl, h.downloaded hdone hdone'⟩

theorem isFile (h : Alike s t) (o : Outcomes) (url : Str) :
    (Fs.basicStat o.stat t.fs (t.targetPath url)).isFile =
    (Fs.basicStat o.stat s.fs (s.targetPath url)).isFile := by
  rw [h.targetPath, Bool.eq_iff_iff, Fs.basicStat_isFile, Fs.basicStat_isFile]
  unfold AssetMgr.targetPath
  rw [lookup_target (Fs.slash_notMem_getFileName url),
    lookup_target (Fs.slash_notMem_getFileName url)]
  split
  · rfl
  · by_cases hne : fileKey url = lit ".acord-dl"
    · -- a directory has no file bit, so a missing one makes no difference
      have hbit : ∀ n : Option Node, (∃ m, n = some m ∧ m.mode &&& S_IFREG ≠ 0) ↔
          dirMode n &&& S_IFREG ≠ 0 := by
        intro n
        cases n with
        | none => simp [dirMode, newDir, S_IFREG]
        | some m => simp [dirMode]
      have hcut : cStr (Fs.getFileName url) = lit ".acord-dl" := hne
      rw [hcut, ← dlDir_eq_target, hbit, hbit, h.fs.dlDir]
    · have htarget := h.fs.target (fileKey url) (slash_notMem_fileKey url) hne
      show _ ∧ (∃ n, t.fs (s.mainAssetDir.target (fileKey url)) = some n ∧ _) ↔ _
      rw [htarget]
      rfl

theorem setPath (h : Alike s t) (url p : Str) : Alike (s.setPath url p) (t.setPath url p) := by
  refine ⟨h.mainAssetDir, ?_, h.fs⟩
  show Function.update t.assetUrlToPath url (some p) =
    Function.update s.assetUrlToPath url (some p)
  rw [h.cache]

theorem find (h : Alike s t) (o : Outcomes) (url : Str) : (t.find o url).1 = (s.find o url).1 ∧
    Alike (s.find o url).2 (t.find o url).2 := by
  have hlocal := h.isFile o url
  rcases find_cases o url s with ⟨p, hp, hf⟩ | ⟨hc, hl, hf⟩ | ⟨hc, hl, hf⟩
  · rcases find_cases o url t with ⟨p', hp', hf'⟩ | ⟨hc', _⟩ | ⟨hc', _⟩
    · rw [h.cache, hp] at hp'
      obtain rfl := Option.some.inj hp'
      rw [hf, hf']
      exact ⟨rfl, h⟩
    · simp [h.cache, hp] at hc'
    · simp [h.cache, hp] at hc'
  · rcases find_cases o url t with ⟨p', hp', _⟩ | ⟨_, _, hf'⟩ | ⟨_, hl', _⟩
    · simp [h.cache, hc] at hp'
    · rw [hf, hf', h.targetPath]
      exact ⟨rfl, h.setPath _ _⟩
    · simp [hl', hl] at hlocal
  · rcases find_cases o url t with ⟨p', hp', _⟩ | ⟨_, hl', _⟩ | ⟨_, _, hf'⟩
    · simp [h.cache, hc] at hp'
    · simp [hl', hl] at hlocal
    · rw [hf, hf']
      exact h.download

theorem makeAvailable (h : Alike s t) (o : Outcomes) (url : Str) :
    (t.makeAvailable o url).1 = (s.makeAvailable o url).1 ∧
    Alike (s.makeAvailable o url).2 (t.makeAvailable o url).2 := by
  obtain ⟨hres, halike⟩ := h.find o url
  cases hr : (s.find o url).1 with
  | ok p =>
    rw [makeAvailable_ok hr, makeAvailable_ok (hres.trans hr)]
    exact ⟨rfl, halike.record _ _⟩
  | error e =>
    rw [makeAvailable_error hr, makeAvailable_error (hres.trans hr)]
    exact ⟨rfl, halike⟩

end Alike

theorem makeAvailable_nil (h : (s.makeAvailable o url).1 = .ok []) :
    Alike s (s.makeAvailable o url).2 := by
  have hlog : ∀ {t} op, Alike s t → Alike s (t.record op) :=
    fun _ h => ⟨h.mainAssetDir, h.cache, h.fs⟩
  rcases makeAvailable_cases o url s with ⟨p, hp, hm⟩ | ⟨_, _, hm⟩ | ⟨_, _, hd⟩
  · rw [hm]
    exact hlog _ (.refl s)
  · rw [hm] at h
    exact absurd (Except.ok.inj h) (targetPath_ne_nil s url)
  · rcases hd with ⟨e, hm, _⟩ | ⟨_, hm, hfail, _⟩ | ⟨hm, _⟩
    · rw [hm] at h
      exact nomatch h
    · rw [hm]
      exact hlog _ hfail.alike
    · rw [hm] at h
      exact absurd (Except.ok.inj h) (targetPath_ne_nil s url)

end Acord
