import Acord.AssetRuns

/-! What is in the files that replies name, on a web where every URL has a fixed body: the cache is
keyed by URLs and the asset directory by their file names, and the first URL with a name wins. -/

namespace Acord
open Ac AssetDir Transition

variable {body : Str → List UInt8} {o : Outcomes} {url u v p : Str} {s t : AssetMgr}
  {log ops : List AssetOp} {name : Str}

/-- Every call made for the URL is let succeed and loses no byte; the server sends its body. -/
structure Succeeds (body : Str → List UInt8) (url : Str) (o : Outcomes) : Prop where
  stat : o.stat = true
  mkdir : o.mkdir = true
  fopen : o.fopen = true
  ofsOpen : o.ofsOpen = true
  getSync : ∃ chunks, Completes o chunks ∧ Lossless o chunks ∧ chunks.flatten = body url
  mv : o.mv = true

def lookedUp (log : List AssetOp) : List Str :=
  log.filterMap fun
    | .found u _ => some u
    | _ => none

def firstLookedUp (log : List AssetOp) (name : Str) : Option Str :=
  (lookedUp log).find? fun u => fileKey u = name

theorem lookedUp_append : lookedUp (log ++ ops) = lookedUp log ++ lookedUp ops :=
  List.filterMap_append

theorem mem_lookedUp (h : v ∈ lookedUp log) : ∃ q, .found v q ∈ log := by
  obtain ⟨op, hop, hv⟩ := List.mem_filterMap.mp h
  cases op with
  | found u q =>
    obtain rfl := Option.some.inj hv
    exact ⟨q, hop⟩
  | _ => exact nomatch hv

theorem firstLookedUp_append (h : firstLookedUp log name = some v) :
    firstLookedUp (log ++ ops) name = some v := by
  unfold firstLookedUp at h ⊢
  rw [lookedUp_append, List.find?_append, h]
  rfl

theorem firstLookedUp_record (h : ∀ v q, .found v q ∈ log → fileKey v ≠ fileKey u) (p : Str) :
    firstLookedUp (log ++ [.found u p]) (fileKey u) = some u := by
  have hnone : firstLookedUp log (fileKey u) = none := by
    apply List.find?_eq_none.mpr
    intro v hv
    obtain ⟨q, hq⟩ := mem_lookedUp hv
    simpa using h v q hq
  unfold firstLookedUp at hnone ⊢
  rw [lookedUp_append, List.find?_append, hnone]
  simp [lookedUp]

structure ContentInv (body : Str → List UInt8) (s : AssetMgr) : Prop where
  -- every file directly in the asset directory is regular and has the body of the first URL of its
  -- name; every URL was found, but for those whose name is that of the download directory
  dlDir : ∀ n, s.fs s.mainAssetDir.dlDir = some n → n.regular = false
  file : ∀ f n, slash ∉ f → f ≠ lit ".acord-dl" → s.fs (s.mainAssetDir.target f) = some n →
    n.regular = true ∧ ∃ v, firstLookedUp s.log f = some v ∧ n.data = body v
  found : ∀ v q, .found v q ∈ s.log → q ≠ [] ∨ fileKey v = lit ".acord-dl"

theorem Succeeds.opens (ho : Succeeds body url o) (h : (touched o url s).1 = .ok ()) :
    Opens o url s := by
  refine ⟨h, ?_⟩
  unfold Fs.ofstreamOpen
  rw [ho.ofsOpen, touched_openable h]
  rfl

namespace ContentInv

theorem congr (hi : ContentInv body s) (hd : t.mainAssetDir = s.mainAssetDir)
    (hdl : ∀ n, t.fs s.mainAssetDir.dlDir = some n → n.regular = false)
    (hfs : ∀ f, slash ∉ f → f ≠ lit ".acord-dl" →
      t.fs (s.mainAssetDir.target f) = s.fs (s.mainAssetDir.target f))
    (hlog : t.log = s.log ++ ops)
    (hops : ∀ v q, .found v q ∈ ops → q ≠ [] ∨ fileKey v = lit ".acord-dl") :
    ContentInv body t where
  dlDir := by rwa [hd]
  file f n hf hne hn := by
    rw [hd, hfs f hf hne] at hn
    obtain ⟨hreg, v, hv, hbytes⟩ := hi.file f n hf hne hn
    exact ⟨hreg, v, hlog ▸ firstLookedUp_append hv, hbytes⟩
  found v q hm := by
    rw [hlog] at hm
    rcases List.mem_append.mp hm with hm | hm
    · exact hi.found v q hm
    · exact hops v q hm

theorem record (hi : ContentInv body s) (hp : p ≠ [] ∨ fileKey u = lit ".acord-dl") :
    ContentInv body (s.record (.found u p)) := by
  refine hi.congr rfl hi.dlDir (fun _ _ _ => rfl) rfl fun v q hm => ?_
  obtain ⟨rfl, rfl⟩ := AssetOp.found.inj (List.mem_singleton.mp hm)
  exact hp

theorem scratch (hi : ContentInv body s) (hc : Calls url s t)
    (h : Scratch s.mainAssetDir s.fs t.fs) :
    ContentInv body t := by
  obtain ⟨ops, hlog, hops⟩ := hc.log
  refine hi.congr hc.mainAssetDir ?_ (fun f hf hne => h.target hf hne) hlog ?_
  · intro n hn
    cases hdl : s.fs s.mainAssetDir.dlDir with
    | some m =>
      rw [h.dlDir hdl] at hn
      exact hi.dlDir n (hdl.trans hn)
    | none =>
      rcases h _ fun g _ => dlDir_ne_dlPath s.mainAssetDir g with e | ⟨_, _, hd⟩
      · rw [e, hdl] at hn
        exact nomatch hn
      · obtain rfl := Option.some.inj (hd.symm.trans hn)
        exact newDir_not_regular
  · intro v q hm
    exact absurd rfl ((hops _ hm).1 v q)

theorem unused (hi : ContentInv body s) (ha : AssetInv s) (hf : Fresh s url)
    (hne : fileKey url ≠ lit ".acord-dl") :
    ∀ v q, .found v q ∈ s.log → fileKey v ≠ fileKey url := by
  intro v q hm hkey
  rcases hi.found v q hm with hq | hdl
  · obtain ⟨q', hq'⟩ := Option.ne_none_iff_exists'.mp (ha.found v q hm hq)
    obtain ⟨rfl, hfile⟩ := ha.cache v q' hq'
    exact hf.2 ((holdsFile_congr hkey).mp hfile)
  · exact hne (hkey ▸ hdl)

theorem downloaded (hi : ContentInv body s) (ha : AssetInv s) (hf : Fresh s url)
    (ho : Succeeds body url o) (hne : fileKey url ≠ lit ".acord-dl") (h : Downloaded o url s t) :
    ContentInv body (t.record (.found url (s.targetPath url))) := by
  obtain ⟨chunks, fs₁, n, hc, _, hscratch, hreg, hdata, _, hfs⟩ := h.moved
  obtain ⟨ops, hlog, hops⟩ := h.calls.log
  have hunused : ∀ v q, .found v q ∈ t.log → fileKey v ≠ fileKey url := by
    intro v q hm
    rw [hlog] at hm
    rcases List.mem_append.mp hm with hm | hm
    · exact hi.unused ha hf hne v q hm
    · exact absurd rfl ((hops _ hm).1 v q)
  have hbody : n.data = body url := by
    obtain ⟨chunks', hc', hl, hflat⟩ := ho.getSync
    obtain rfl := hc.unique hc'
    rw [hdata, stored_iff.mpr hl, hflat]
  have hcut : cStr (s.targetPath url) = s.mainAssetDir.target (fileKey url) := cStr_target _ _
  have hcalls : Calls url s { s with fs := fs₁, log := t.log } := ⟨rfl, ops, hlog, hops⟩
  have hi₁ := hi.scratch hcalls hscratch
  refine ⟨?_, ?_, ?_⟩
  · intro m hm
    change t.fs t.mainAssetDir.dlDir = some m at hm
    rw [h.calls.mainAssetDir, hfs, Fs.put_other] at hm
    · exact hi₁.dlDir m hm
    · rw [hcut, dlDir_eq_target]
      exact fun he => hne ((target_inj _).mp he).symm
  · intro f m hslash hfne hm
    change t.fs (t.mainAssetDir.target f) = some m at hm
    rw [h.calls.mainAssetDir, hfs] at hm
    by_cases he : f = fileKey url
    · -- the new file: its URL is the first of its name
      rw [he, ← hcut, Fs.put_same] at hm
      obtain rfl := Option.some.inj hm
      exact ⟨hreg ha.exact.dl, url, he ▸ firstLookedUp_record hunused _, hbody⟩
    · rw [Fs.put_other (fun h => he ((target_inj _).mp (h.trans hcut)))] at hm
      obtain ⟨hmreg, v, hv, hbytes⟩ := hi₁.file f m hslash hfne hm
      exact ⟨hmreg, v, firstLookedUp_append hv, hbytes⟩
  · intro v q hm
    rcases List.mem_append.mp hm with hm | hm
    · exact hi₁.found v q hm
    · obtain ⟨rfl, rfl⟩ := AssetOp.found.inj (List.mem_singleton.mp hm)
      exact .inl (targetPath_ne_nil s v)

end ContentInv

theorem makeAvailable_content (ha : AssetInv s) (hi : ContentInv body s)
    (ho : Succeeds body url o) :
    ContentInv body (s.makeAvailable o url).2 := by
  rcases makeAvailable_cases o url s with ⟨p, hp, hm⟩ | ⟨_, _, hm⟩ | ⟨hc, hl, hd⟩
  · obtain ⟨rfl, _⟩ := ha.cache url p hp
    rw [hm]
    exact hi.record (.inl (targetPath_ne_nil s url))
  · rw [hm]
    have hset : ContentInv body (s.setPath url (s.targetPath url)) := ⟨hi.dlDir, hi.file, hi.found⟩
    exact hset.record (.inl (targetPath_ne_nil s url))
  · have hfresh : Fresh s url := by
      rw [ho.stat] at hl
      exact ⟨hc, fun hfile => by simp [(basicStat_target ha.exact.stat).mpr hfile] at hl⟩
    rcases hd with ⟨e, hm, hfail⟩ | ⟨ht, hm, hfail, hblock⟩ | ⟨hm, hne, hdone⟩
    · rw [hm]
      exact hi.scratch hfail.calls hfail.scratch
    · rw [hm]
      apply (hi.scratch hfail.calls hfail.scratch).record
      right
      by_contra hne
      -- every call succeeded, so a directory is in the way: it is the download directory
      obtain ⟨chunks, hchunks, _⟩ := ho.getSync
      obtain ⟨m, hm, hd⟩ := hblock (ho.opens ht) chunks hchunks ho.mv
      rw [(touched_scratch o url s).target (slash_notMem_fileKey url) hne] at hm
      have hreg := (hi.file _ m (slash_notMem_fileKey url) hne hm).1
      simp [Node.regular_not_directory hreg] at hd
    · rw [hm]
      exact hi.downloaded ha hfresh ho hne hdone

def HasBytes (fs : Fs) (p : Str) (data : List UInt8) : Prop :=
  ∃ n, fs.lookup p = some n ∧ n.data = data

def OwnContent (body : Str → List UInt8) (s : AssetMgr) (u p : Str) : Prop :=
  p ≠ [] → HasBytes s.fs p (body u)

def FirstContent (body : Str → List UInt8) (s : AssetMgr) (u p : Str) : Prop :=
  p ≠ [] → ∃ v, firstLookedUp s.log (fileKey u) = some v ∧ HasBytes s.fs p (body v)

theorem ContentInv.first (hi : ContentInv body s) (hg : GoodPath s u p) :
    FirstContent body s u p := by
  intro hp
  obtain ⟨rfl, n, hn, hreg⟩ := hg.2.resolve_left hp
  have hlookup := hn
  unfold AssetMgr.targetPath at hn
  rw [lookup_target (Fs.slash_notMem_getFileName u)] at hn
  split at hn
  next hname =>
    obtain rfl := Option.some.inj hn
    exact absurd hreg (by decide)
  next hname =>
    have hne : fileKey u ≠ lit ".acord-dl" := by
      intro he
      change s.fs (s.mainAssetDir.target (fileKey u)) = some n at hn
      rw [he, ← dlDir_eq_target] at hn
      simp [hi.dlDir n hn] at hreg
    obtain ⟨_, v, hv, hbytes⟩ := hi.file (fileKey u) n (slash_notMem_fileKey u) hne hn
    exact ⟨v, hv, n, hlookup, hbytes⟩

theorem contentRule (body : Str → List UInt8) :
    UrlRule (Succeeds body) (fun s => AssetInv s ∧ ContentInv body s) Kept GoodPath where
  refl := Kept.refl
  trans := Kept.trans
  stable := GoodPath.kept
  serve := by
    rintro o url s ho ⟨ha, hi⟩
    obtain ⟨ha', hkept, hgood⟩ := makeAvailable_inv url ha ho.stat
    exact ⟨⟨ha', makeAvailable_content ha hi ho⟩, hkept, hgood⟩

variable {lib : FrameLib} {dir : AssetDir} {tr : List AssetEvent} {sv : AssetService}

/-- Over an asset directory that was empty, a path names a file with the body of the first URL of
its name. -/
theorem first_content
    (h : ((assetService lib dir fun _ => none).guard (PolledWith (Succeeds body))).Run tr sv) :
    ∀ i cmd reply, sv.sessions i = .replying cmd reply →
      RepliesWith (FirstContent body) sv.mgr cmd reply := by
  have ha : AssetInv (.construct dir fun _ => none) := .construct (.empty dir)
  have hi : ContentInv body (.construct dir fun _ => none) :=
    ⟨fun _ hn => (nomatch hn), fun _ _ _ _ hn => (nomatch hn), fun _ _ hm => (nomatch hm)⟩
  have hrun := (contentRule body).run ⟨ha, hi⟩ h
  intro i cmd reply hr urls hop hurls
  obtain ⟨paths, hp, hfor⟩ := hrun.replies i cmd reply hr urls hop hurls
  exact ⟨paths, hp, hfor.imp fun _ _ hg => hrun.mgr.2.first hg⟩

def sampleBody (url : Str) : List UInt8 := if url = lit "a/m" then [1] else [2]

def sampleUrls : List Str := [lit "a/m", lit "b/m"]

def webOutcomes (data : List UInt8) : Outcomes :=
  ⟨true, true, true, true, .ok [.ok data], fun _ => data.length, 0, true⟩

def sampleWeb (i : Nat) : Outcomes := webOutcomes (sampleBody (sampleUrls.getD i []))

theorem sampleWeb_succeeds : AllOutcomes (Succeeds sampleBody) (.strings sampleUrls) sampleWeb := by
  intro i url hi
  have hurl : sampleUrls.getD i [] = url := by simp [Dict.index_strings_str hi]
  have hget : Completes (sampleWeb i) [sampleBody url] := by rw [← hurl]; rfl
  refine ⟨rfl, rfl, rfl, rfl, ⟨_, hget, ⟨⟨?_, trivial⟩, .inl rfl⟩, by simp⟩, rfl⟩
  rw [← hurl]
  exact Nat.le_refl _

theorem first_content_two :
    RepliesWith (FirstContent sampleBody) (sampleServed sampleUrls sampleWeb).mgr
      (urlsRequest sampleUrls) (assetsFrame [lit "/a/m", lit "/a/m"]) := by
  have hrun : ((assetService sampleFrames sampleMgr.mainAssetDir fun _ => none).guard
      (PolledWith (Succeeds sampleBody))).Run _ _ := sampleServed_run trivial sampleWeb_succeeds
  exact first_content hrun 0 _ _ rfl

/-- The second URL is reported under the file of the first. -/
theorem second_content_differs : ∃ tr s,
    ((assetService sampleFrames sampleMgr.mainAssetDir fun _ => none).guard
      (PolledWith (Succeeds sampleBody))).Run tr s ∧
    ¬ ∀ i cmd reply, s.sessions i = .replying cmd reply →
      RepliesWith (OwnContent sampleBody) s.mgr cmd reply := by
  refine ⟨_, _, sampleServed_run trivial sampleWeb_succeeds, fun hall => ?_⟩
  have hreply : (sampleServed sampleUrls sampleWeb).sessions 0 =
      .replying (urlsRequest sampleUrls) (assetsFrame [lit "/a/m", lit "/a/m"]) := rfl
  obtain ⟨paths, hp, hfor⟩ := hall 0 _ _ hreply sampleUrls rfl rfl
  obtain rfl := Dict.strings_inj (congrArg Frame.data hp)
  cases hfor with
  | cons _ hrest =>
    cases hrest with
    | cons hown _ =>
      obtain ⟨n, hn, hbytes⟩ := hown (by decide)
      have hfirst : some [1] = some n.data := congrArg (Option.map Node.data) hn
      rw [hbytes] at hfirst
      exact absurd hfirst (by decide)

end Acord
