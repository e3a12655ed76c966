import Acord.AssetDownload
import Acord.AssetRequests

/-! When what is published is complete. -/

namespace Acord
open Ac AssetDir

variable {o : Outcomes} {url : Str} {s : AssetMgr} {chunks : List (List UInt8)}

def Downloads (o : Outcomes) (url : Str) (s : AssetMgr) : Prop :=
  s.assetUrlToPath url = none ∧ (Fs.basicStat o.stat s.fs (s.targetPath url)).isFile = false ∧
    Opens o url s

def Published (o : Outcomes) (url : Str) (s : AssetMgr) : Prop :=
  ∃ chunks n, Completes o chunks ∧
    (s.makeAvailable o url).2.fs.lookup (s.targetPath url) = some n ∧ n.data = chunks.flatten ∧
    (s.makeAvailable o url).2.assetUrlToPath url = some (s.targetPath url) ∧
    (s.makeAvailable o url).1 = .ok (s.targetPath url)

def Untouched (o : Outcomes) (url : Str) (s : AssetMgr) : Prop :=
  (s.makeAvailable o url).2.fs.lookup (s.targetPath url) = s.fs.lookup (s.targetPath url) ∧
    (s.makeAvailable o url).2.assetUrlToPath = s.assetUrlToPath ∧ (s.makeAvailable o url).1 = .ok []

/-- A finished download loses no byte, unless its rename fails: it is not let succeed, or a
directory is in the way, such as the download directory, which must be there already. -/
def SafeDownload (o : Outcomes) (url : Str) (s : AssetMgr) : Prop :=
  (fileKey url = lit ".acord-dl" → s.fs s.mainAssetDir.dlDir ≠ none) ∧
    ∀ chunks, Completes o chunks → o.mv = true → fileKey url ≠ lit ".acord-dl" →
      ¬ Blocked s.fs s url → Lossless o chunks

theorem Downloads.find_eq (h : Downloads o url s) : s.find o url = s.download o url :=
  find_download h.1 h.2.1

theorem untouched_iff (h : Downloads o url s) (hr : (s.download o url).1 = .ok [])
    (hfail : Failed url s (s.download o url).2)
    (hmade : Scratch s.mainAssetDir (touched o url s).2 (s.download o url).2.fs) :
    Untouched o url s ↔ (fileKey url = lit ".acord-dl" → s.fs s.mainAssetDir.dlDir ≠ none) := by
  have hname := h.2.2.file.1
  have hm := makeAvailable_ok (h.find_eq ▸ hr : (s.find o url).1 = .ok [])
  have hkept : Untouched o url s ↔
      (s.download o url).2.fs (s.mainAssetDir.target (fileKey url)) =
        s.fs (s.mainAssetDir.target (fileKey url)) := by
    unfold Untouched
    rw [hm, lookup_targetPath s hname, lookup_targetPath s hname, h.find_eq]
    exact ⟨fun h => h.1, fun h => ⟨h, hfail.cache, rfl⟩⟩
  rw [hkept]
  by_cases hne : fileKey url = lit ".acord-dl"
  · -- the target is the download directory, which was made if it was missing
    rw [hne, ← dlDir_eq_target]
    constructor
    · intro heq _ hnone
      obtain ⟨d, hd, _⟩ := touched_dlDir h.2.2.1
      rw [hnone, hmade.dlDir hd] at heq
      exact absurd heq nofun
    · intro hthere
      obtain ⟨n, hn⟩ := Option.ne_none_iff_exists'.mp (hthere rfl)
      rw [hn, hfail.scratch.dlDir hn]
  · exact iff_of_true (hfail.scratch.target (slash_notMem_fileKey url) hne) fun he => absurd he hne

theorem published_iff (h : Downloads o url s) (hr : (s.download o url).1 = .ok (s.targetPath url))
    (hdone : Downloaded o url s (s.download o url).2) (hc : Completes o chunks) :
    Published o url s ↔ Lossless o chunks := by
  have hname := h.2.2.file.1
  have hm := makeAvailable_ok (h.find_eq ▸ hr : (s.find o url).1 = .ok (s.targetPath url))
  obtain ⟨chunks', fs₁, n, hc', _, _, _, hdata, _, hfs⟩ := hdone.moved
  obtain rfl : chunks' = chunks := hc'.unique hc
  have hlookup : (s.makeAvailable o url).2.fs.lookup (s.targetPath url) = some n := by
    rw [hm, lookup_targetPath s hname, h.find_eq]
    show (s.download o url).2.fs _ = _
    rw [hfs]
    exact put_targetPath_same fs₁ (some n) s url
  rw [← stored_iff, ← hdata]
  constructor
  · rintro ⟨chunks', n', hc', hn', hd', _⟩
    obtain rfl : n = n' := Option.some.inj (hlookup.symm.trans hn')
    exact hc'.unique hc ▸ hd'
  · intro hd
    refine ⟨chunks', n, hc, hlookup, hd, ?_, by rw [hm]⟩
    rw [hm, h.find_eq]
    show (s.download o url).2.assetUrlToPath url = _
    rw [hdone.cache, Function.update_self]

/-- A download that reaches its loop publishes a complete asset or leaves target and cache as they
were, exactly when it is safe. -/
theorem download_complete_iff (h : Downloads o url s) :
    Published o url s ∨ Untouched o url s ↔ SafeDownload o url s := by
  have hslash := slash_notMem_fileKey url
  rcases download_cases o url s with
    ⟨e, he, _⟩ | ⟨_, hr, hfail, hblock, hmade⟩ | ⟨hopens, hr, hne, hdone⟩
  · exact absurd (h.2.2.1.symm.trans he) nofun
  · have hm := makeAvailable_ok (h.find_eq ▸ hr : (s.find o url).1 = .ok [])
    have hunpub : ¬ Published o url s := by
      rintro ⟨_, _, _, _, _, _, hp⟩
      rw [hm] at hp
      exact targetPath_ne_nil s url (Except.ok.inj hp).symm
    have hvacuous : ∀ chunks, Completes o chunks → o.mv = true → fileKey url ≠ lit ".acord-dl" →
        ¬ Blocked s.fs s url → Lossless o chunks := by
      intro chunks hc ho hne hb
      obtain ⟨m, hm, hd⟩ := hblock h.2.2 chunks hc ho
      rw [(touched_scratch o url s).target hslash hne] at hm
      exact absurd ⟨m, hm, hd⟩ hb
    rw [or_iff_right hunpub, untouched_iff h hr hfail hmade]
    exact ⟨fun hthere => ⟨hthere, hvacuous⟩, fun hsafe => hsafe.1⟩
  · have hm := makeAvailable_ok (h.find_eq ▸ hr : (s.find o url).1 = .ok (s.targetPath url))
    have hunkept : ¬ Untouched o url s := by
      rintro ⟨_, _, hp⟩
      rw [hm] at hp
      exact targetPath_ne_nil s url (Except.ok.inj hp)
    obtain ⟨chunks, fs₁, n, hc, ho, hscratch, _, _, hdir, _⟩ := hdone.moved
    rw [or_iff_left hunkept, published_iff h hr hdone hc]
    constructor
    · intro hl
      exact ⟨fun he => absurd he hne, fun chunks' hc' _ _ _ => hc.unique hc' ▸ hl⟩
    · intro hsafe
      apply hsafe.2 chunks hc ho hne
      rintro ⟨m, hm, hd⟩
      rw [← hscratch.target hslash hne] at hm
      simp [hdir m hm] at hd

theorem sample_downloads (room : Nat) : Downloads (sampleOutcomes room) (lit "h/m") sampleMgr :=
  ⟨rfl, rfl, rfl, rfl⟩

theorem download_complete_iff_m :
    Published (sampleOutcomes 2) (lit "h/m") sampleMgr ∨
      Untouched (sampleOutcomes 2) (lit "h/m") sampleMgr := by
  refine (download_complete_iff (sample_downloads 2)).mpr ⟨fun h => absurd h (by decide), ?_⟩
  intro chunks hc _ _ _
  obtain rfl : [[1, 2]] = chunks := Completes.unique (o := sampleOutcomes 2) rfl hc
  exact ⟨⟨Nat.le_refl _, trivial⟩, .inl rfl⟩

/-- On a disk with room for one byte, half of the asset is published and reported. -/
theorem truncated_published :
    Downloads (sampleOutcomes 1) (lit "h/m") sampleMgr ∧
    (sampleMgr.makeAvailable (sampleOutcomes 1) (lit "h/m")).1 = .ok (lit "/a/m") ∧
    ((sampleMgr.makeAvailable (sampleOutcomes 1) (lit "h/m")).2.fs.lookup (lit "/a/m")).map
      (·.data) = some [1] ∧
    ¬ (Published (sampleOutcomes 1) (lit "h/m") sampleMgr ∨
      Untouched (sampleOutcomes 1) (lit "h/m") sampleMgr) := by
  refine ⟨sample_downloads 1, rfl, rfl, ?_⟩
  rintro (⟨chunks, n, hc, hn, hd, _⟩ | ⟨_, _, hp⟩)
  · obtain rfl : [[1, 2]] = chunks := Completes.unique (o := sampleOutcomes 1) rfl hc
    have hbytes : some [1] = some n.data := congrArg (Option.map Node.data) hn
    exact absurd (hd ▸ hbytes) (by decide)
  · exact absurd (Except.ok.inj hp) (by decide)

end Acord
