import Acord.AssetMgr

/-! The asset directory: its paths, and what the calls made for a download change in it. -/

namespace Acord
open Ac

variable {dir : AssetDir} {fs fs' fs'' : Fs} {f g : Str}

namespace AssetDir

def dlDir (dir : AssetDir) : Str := dir.path ++ lit "/.acord-dl"

theorem target_eq (dir : AssetDir) (f : Str) : dir.target f = dir.path ++ slash :: f := by
  have hlit : lit "/" = [slash] := rfl
  simp [target, hlit]

theorem dlPath_eq (dir : AssetDir) (f : Str) : dir.dlPath f = dir.dlDir ++ slash :: f := by
  have hlit : lit "/.acord-dl/" = lit "/.acord-dl" ++ [slash] := rfl
  simp [dlPath, dlDir, hlit]

theorem dlDir_ne_nil (dir : AssetDir) : dir.dlDir ≠ [] := by
  have hlit : lit "/.acord-dl" ≠ [] := by decide
  simp [dlDir, hlit]

theorem dlDir_noNul (dir : AssetDir) : 0 ∉ dir.dlDir := by
  have hlit : 0 ∉ lit "/.acord-dl" := by decide
  simp [dlDir, dir.noNul, hlit]

theorem cStr_cons_slash (f : Str) : cStr (slash :: f) = slash :: cStr f :=
  List.takeWhile_cons_of_pos (by decide)

@[simp] theorem cStr_target (dir : AssetDir) (f : Str) :
    cStr (dir.target f) = dir.target (cStr f) := by
  rw [target_eq, target_eq, Fs.cStr_append _ dir.noNul, cStr_cons_slash]

@[simp] theorem cStr_dlPath (dir : AssetDir) (f : Str) :
    cStr (dir.dlPath f) = dir.dlPath (cStr f) := by
  rw [dlPath_eq, dlPath_eq, Fs.cStr_append _ dir.dlDir_noNul, cStr_cons_slash]

theorem cStr_noSlash (hf : slash ∉ f) : slash ∉ cStr f := fun h => hf (Fs.mem_cStr h)

theorem getFileName_target (dir : AssetDir) (hf : slash ∉ f) :
    Fs.getFileName (dir.target f) = f := by
  rw [target_eq]
  exact Fs.getFileName_append _ hf

theorem getFileName_dlPath (dir : AssetDir) (hf : slash ∉ f) :
    Fs.getFileName (dir.dlPath f) = f := by
  rw [dlPath_eq]
  exact Fs.getFileName_append _ hf

theorem parentPath_dlPath (dir : AssetDir) (hf : slash ∉ f) :
    Fs.parentPath (dir.dlPath f) = dir.dlDir := by
  have hlit : lit "/.acord-dl" ≠ [] := by decide
  rw [dlPath_eq]
  apply Fs.parentPath_append hf dir.dlDir_ne_nil
  have hlast : dir.dlDir.getLast dir.dlDir_ne_nil = (lit "/.acord-dl").getLast hlit :=
    List.getLast_append_of_ne_nil _ _
  have hchar : (lit "/.acord-dl").getLast (by decide) ≠ slash := by decide
  rw [hlast]
  exact hchar

theorem dlDir_eq_target (dir : AssetDir) : dir.dlDir = dir.target (lit ".acord-dl") := by
  have hlit : lit "/.acord-dl" = slash :: lit ".acord-dl" := rfl
  rw [target_eq, dlDir, hlit]

theorem target_inj (dir : AssetDir) : dir.target f = dir.target g ↔ f = g := by
  simp [target_eq]

theorem target_ne_dlPath (dir : AssetDir) (hf : slash ∉ f) : dir.target f ≠ dir.dlPath g := by
  intro h
  have hlit : lit "/.acord-dl" = slash :: lit ".acord-dl" := rfl
  rw [target_eq, dlPath_eq, dlDir, hlit] at h
  have hmem : f = lit ".acord-dl" ++ slash :: g := by simpa using h
  exact hf (hmem ▸ List.mem_append_right _ List.mem_cons_self)

end AssetDir

open AssetDir

theorem lookup_target (hf : slash ∉ f) : fs.lookup (dir.target f) =
    if cStr f ∈ Fs.dirNames then some newDir else fs (dir.target (cStr f)) := by
  unfold Fs.lookup
  rw [cStr_target, getFileName_target _ (cStr_noSlash hf)]

theorem lookup_dlPath (hf : slash ∉ f) : fs.lookup (dir.dlPath f) =
    if cStr f ∈ Fs.dirNames then some newDir else fs (dir.dlPath (cStr f)) := by
  unfold Fs.lookup
  rw [cStr_dlPath, getFileName_dlPath _ (cStr_noSlash hf)]

theorem lookup_dlDir : fs.lookup dir.dlDir = fs dir.dlDir := by
  have hslash : slash ∉ lit ".acord-dl" := by decide
  have hname : cStr (lit ".acord-dl") ∉ Fs.dirNames := by decide
  have hcut : cStr (lit ".acord-dl") = lit ".acord-dl" := by decide
  rw [dlDir_eq_target, lookup_target hslash, if_neg hname, hcut]

def Scratch (dir : AssetDir) (fs fs' : Fs) : Prop :=
  ∀ k, (∀ f, slash ∉ f → k ≠ dir.dlPath f) →
    fs' k = fs k ∨ (k = dir.dlDir ∧ fs k = none ∧ fs' k = some newDir)

namespace Scratch

theorem refl (fs : Fs) : Scratch dir fs fs := fun _ _ => .inl rfl

theorem trans (h : Scratch dir fs fs') (h' : Scratch dir fs' fs'') : Scratch dir fs fs'' := by
  intro k hk
  rcases h k hk with e | ⟨hd, hn, hs⟩
  · rcases h' k hk with e' | ⟨hd, hn, hs⟩
    · exact .inl (e'.trans e)
    · exact .inr ⟨hd, e ▸ hn, hs⟩
  · rcases h' k hk with e' | ⟨_, hn', _⟩
    · exact .inr ⟨hd, hn, e'.trans hs⟩
    · simp [hs] at hn'

theorem put {n : Option Node} (hf : slash ∉ f) (h : Scratch dir fs fs') :
    Scratch dir fs (fs'.put (dir.dlPath f) n) := by
  apply h.trans
  intro k hk
  left
  apply Fs.put_other
  rw [cStr_dlPath]
  exact hk _ (cStr_noSlash hf)

end Scratch

def fileMode (n : Option Node) : Nat := (n.getD newFile).mode

def SameModes (dir : AssetDir) (fs fs' : Fs) : Prop :=
  ∀ f, slash ∉ f → fileMode (fs' (dir.dlPath f)) = fileMode (fs (dir.dlPath f))

namespace SameModes

theorem refl (fs : Fs) : SameModes dir fs fs := fun _ _ => rfl

theorem trans (h : SameModes dir fs fs') (h' : SameModes dir fs' fs'') : SameModes dir fs fs'' :=
  fun f hf => (h' f hf).trans (h f hf)

theorem put {n : Option Node} (hn : fileMode n = fileMode (fs (dir.dlPath (cStr f)))) :
    SameModes dir fs (fs.put (dir.dlPath f) n) := by
  intro g _
  by_cases hg : dir.dlPath g = cStr (dir.dlPath f)
  · rw [hg, Fs.put_same, hn, cStr_dlPath]
  · rw [Fs.put_other hg]

end SameModes

/-- No fifo and no device in the download directory: what can be opened there is a regular file. -/
def PlainDl (dir : AssetDir) (fs : Fs) : Prop :=
  ∀ f n, slash ∉ f → fs (dir.dlPath f) = some n → n.openable = true → n.regular = true

theorem newDir_not_regular : newDir.regular = false := by decide

theorem newDir_not_openable : newDir.openable = false := by decide

theorem newFile_regular : newFile.regular = true := by decide

theorem newFile_openable : newFile.openable = true := by decide

theorem Node.regular_not_directory {n : Node} (h : n.regular = true) : n.directory = false := by
  have hm : n.mode &&& S_IFMT = S_IFREG := by simpa [Node.regular] using h
  have hne : S_IFREG ≠ S_IFDIR := by decide
  simp [Node.directory, hm, hne]

theorem Node.openable_not_directory {n : Node} (h : n.openable = true) : n.directory = false := by
  simp only [Node.openable, Bool.and_eq_true, Bool.not_eq_true'] at h
  exact h.1

theorem openable_dlPath (hf : slash ∉ f) (h : fs.openable (dir.dlPath f) = true) :
    cStr f ∉ Fs.dirNames ∧ ∀ n, fs (dir.dlPath (cStr f)) = some n → n.openable = true := by
  unfold Fs.openable at h
  rw [lookup_dlPath hf] at h
  by_cases hname : cStr f ∈ Fs.dirNames
  · rw [if_pos hname] at h
    exact absurd h (by decide)
  · rw [if_neg hname] at h
    refine ⟨hname, fun n hn => ?_⟩
    rw [hn] at h
    exact h

namespace PlainDl

theorem fileMode (h : PlainDl dir fs) (hf : slash ∉ f)
    (ho : Node.openable ⟨fileMode (fs (dir.dlPath f)), []⟩ = true) :
    Node.regular ⟨fileMode (fs (dir.dlPath f)), []⟩ = true := by
  cases hn : fs (dir.dlPath f) with
  | none => exact newFile_regular
  | some n =>
    rw [hn] at ho
    exact h f n hf hn ho

theorem sameModes (h : PlainDl dir fs) (hm : SameModes dir fs fs') : PlainDl dir fs' := by
  intro f n hf hn ho
  have hmode : n.mode = Acord.fileMode (fs (dir.dlPath f)) := by
    rw [← hm f hf, hn]
    rfl
  have hreg := h.fileMode hf
  rw [← hmode] at hreg
  exact hreg ho

theorem put_none (h : PlainDl dir fs) (p : Str) : PlainDl dir (fs.put p none) := by
  intro f n hf hn
  by_cases hp : dir.dlPath f = cStr p
  · rw [hp, Fs.put_same] at hn
    cases hn
  · rw [Fs.put_other hp] at hn
    exact h f n hf hn

theorem put_target {n : Option Node} (h : PlainDl dir fs) (hg : slash ∉ g) :
    PlainDl dir (fs.put (dir.target g) n) := by
  intro f m hf hn
  rw [Fs.put_other] at hn
  · exact h f m hf hn
  · rw [cStr_target]
    exact (target_ne_dlPath dir (cStr_noSlash hg)).symm

end PlainDl

theorem dlDir_ne_dlPath (dir : AssetDir) (g : Str) : dir.dlDir ≠ dir.dlPath g := by
  have hslash : slash ∉ lit ".acord-dl" := by decide
  rw [dlDir_eq_target]
  exact target_ne_dlPath dir hslash

theorem cStr_dlDir (dir : AssetDir) : cStr dir.dlDir = dir.dlDir := by
  have hname : cStr (lit ".acord-dl") = lit ".acord-dl" := by decide
  rw [dlDir_eq_target, cStr_target, hname]

theorem createDirectories_scratch {ok : Bool}
    (h : Fs.createDirectories ok fs dir.dlDir = some fs') :
    Scratch dir fs fs' ∧ SameModes dir fs fs' ∧
      ∃ n, fs' dir.dlDir = some n ∧ n.directory = true := by
  have hcut := cStr_dlDir dir
  rcases Fs.createDirectories_spec h with ⟨n, hn, hd, rfl⟩ | ⟨hn, rfl⟩
  · rw [lookup_dlDir] at hn
    exact ⟨.refl _, .refl _, n, hn, hd⟩
  · rw [lookup_dlDir] at hn
    have hself : fs.put dir.dlDir (some newDir) dir.dlDir = some newDir := by
      have hsame := Fs.put_same fs dir.dlDir (some newDir)
      rwa [hcut] at hsame
    refine ⟨fun k _ => ?_, fun g _ => ?_, newDir, hself, by decide⟩
    · by_cases hk : k = dir.dlDir
      · exact .inr ⟨hk, hk ▸ hn, hk ▸ hself⟩
      · exact .inl (Fs.put_other (hcut.symm ▸ hk))
    · rw [Fs.put_other]
      rw [hcut]
      exact (dlDir_ne_dlPath dir g).symm

theorem fopenAppend_scratch {ok : Bool} (hf : slash ∉ f)
    (h : Fs.fopenAppend ok fs (dir.dlPath f) = some fs') :
    Scratch dir fs fs' ∧ SameModes dir fs fs' := by
  obtain ⟨_, rfl⟩ := Fs.fopenAppend_spec h
  split
  next => exact ⟨.refl _, .refl _⟩
  next hnone =>
    refine ⟨(Scratch.refl fs).put hf, .put ?_⟩
    rw [lookup_dlPath hf] at hnone
    split at hnone
    · exact absurd rfl hnone
    · have hmissing : fs (dir.dlPath (cStr f)) = none := by simpa using hnone
      rw [hmissing]
      rfl

theorem touch_dlPath (mkdirOk fopenOk : Bool) (hf : slash ∉ f) :
    Scratch dir fs (Fs.touch mkdirOk fopenOk fs (dir.dlPath f)).2 ∧
    SameModes dir fs (Fs.touch mkdirOk fopenOk fs (dir.dlPath f)).2 ∧
    ((Fs.touch mkdirOk fopenOk fs (dir.dlPath f)).1 = .ok () →
      ∃ n, (Fs.touch mkdirOk fopenOk fs (dir.dlPath f)).2 dir.dlDir = some n ∧
        n.directory = true) := by
  have hparent : Fs.parentPath (dir.dlPath f) = dir.dlDir := parentPath_dlPath _ hf
  rcases Fs.touch_cases fs mkdirOk fopenOk (hparent ▸ dir.dlDir_ne_nil) with
    ⟨e, h⟩ | ⟨fs₁, hd, _, h⟩ | ⟨fs₁, fs₂, hd, ho, h⟩
  · rw [h]
    exact ⟨.refl _, .refl _, fun hok => nomatch hok⟩
  · rw [hparent] at hd
    obtain ⟨hscratch, hmodes, _⟩ := createDirectories_scratch hd
    rw [h]
    exact ⟨hscratch, hmodes, fun hok => nomatch hok⟩
  · rw [hparent] at hd
    obtain ⟨hscratch, hmodes, n, hn, hdir⟩ := createDirectories_scratch hd
    obtain ⟨hscratch', hmodes'⟩ := fopenAppend_scratch hf ho
    rw [h]
    refine ⟨hscratch.trans hscratch', hmodes.trans hmodes', fun _ => ?_⟩
    rcases hscratch' dir.dlDir fun g _ => dlDir_ne_dlPath dir g with e | ⟨_, hnone, _⟩
    · exact ⟨n, e.trans hn, hdir⟩
    · simp [hn] at hnone

theorem ofstreamOpen_dlPath {ok : Bool} (hf : slash ∉ f)
    (h : Fs.ofstreamOpen ok fs (dir.dlPath f) = some fs') :
    cStr f ∉ Fs.dirNames ∧ Node.openable ⟨fileMode (fs (dir.dlPath (cStr f))), []⟩ = true ∧
      fs' = fs.put (dir.dlPath f) (some ⟨fileMode (fs (dir.dlPath (cStr f))), []⟩) := by
  obtain ⟨ho, rfl⟩ := Fs.ofstreamOpen_spec h
  obtain ⟨hname, hopen⟩ := openable_dlPath hf ho
  refine ⟨hname, ?_, ?_⟩
  · cases hn : fs (dir.dlPath (cStr f)) with
    | none => exact newFile_openable
    | some n => exact hopen n hn
  · rw [lookup_dlPath hf, if_neg hname]
    rfl

end Acord
