import Acord.SharedDir

/-! What instances do to each other's downloads: an instance that opens the download of another
truncates it, and where none does every file renamed into the directory is complete. -/

namespace Acord
open Ac Transition Inodes

variable {ι : Type} [DecidableEq ι] {dir : AssetDir} {serves : Str → List UInt8 → Prop} {fs : Fs}
  {s t : SharedDir ι} {d d' : FsDisk} {i j : ι} {url url' : Str} {ofs : Handle}
  {got : List UInt8}

def AssetDir.dlKey (dir : AssetDir) (url : Str) : Str := cStr (dir.urlDlPath url)

/-- No other instance is downloading to the file that is opened. -/
def Undisturbed (dir : AssetDir) (s : SharedDir ι) : ι × DirEvent → Prop
  | (i, .opened url) => ∀ j url', j ≠ i →
    (s.instances j).serving.downloading = some url' → dir.dlKey url' ≠ dir.dlKey url
  | _ => True

/-- What was opened over a directory that was `fs`: a regular file, where the download directory had
no fifos and no devices. -/
def Node.Written (dir : AssetDir) (fs : Fs) (n : Node) : Prop :=
  n.openable = true ∧ (PlainDl dir fs → n.regular = true)

structure Held (dir : AssetDir) (fs : Fs) (d : FsDisk) (url : Str) (ofs : Handle) (got : List UInt8) :
    Prop where
  name : d.names (dir.dlKey url) = some ofs.ino
  written : (d.nodes ofs.ino).Written dir fs
  offset : ofs.offset = (d.nodes ofs.ino).data.length
  got : (d.nodes ofs.ino).data ++ ofs.pending = got

theorem Held.sameAt (h : Held dir fs d url ofs got) (hd : Disk.SameAt (dir.dlKey url) d d') :
    Held dir fs d' url ofs got where
  name := hd.name.trans h.name
  written := by
    rw [hd.node _ h.name]
    exact h.written
  offset := by
    rw [hd.node _ h.name]
    exact h.offset
  got := by
    rw [hd.node _ h.name]
    exact h.got

def FileAt (dir : AssetDir) (fs : Fs) (d : FsDisk) (k : Str) (data : List UInt8) : Prop :=
  ∃ n, d.view k = some n ∧ n.Written dir fs ∧ n.data = data

def Serving.Good (dir : AssetDir) (serves : Str → List UInt8 → Prop) (fs : Fs) (d : FsDisk)
    (placed : Str → Option Download) : Serving → Prop
  | fetching url ofs => Held dir fs d url ofs []
  | receiving url ofs body rest =>
    serves url body ∧ ∃ got, body = got ++ rest ∧ Held dir fs d url ofs got
  | moving url body => serves url body ∧ FileAt dir fs d (dir.dlKey url) body
  | caching url => placed (cStr (dir.urlTarget url)) ≠ none
  | _ => True

def Known (dir : AssetDir) (fs : Fs) (placed : Str → Option Download) (path : Str) : Prop :=
  ∃ f, slash ∉ f ∧ cStr path = dir.target f ∧
    (placed (dir.target f) ≠ none ∨ ∃ n, fs (dir.target f) = some n ∧ n.mode &&& S_IFREG ≠ 0)

structure Aside (dir : AssetDir) (fs fs' : Fs) : Prop where
  scratch : Scratch dir fs fs'
  modes : SameModes dir fs fs'

theorem Aside.refl (dir : AssetDir) (fs : Fs) : Aside dir fs fs := ⟨.refl fs, .refl fs⟩

structure Intact (dir : AssetDir) (serves : Str → List UInt8 → Prop) (fs : Fs)
    (s : SharedDir ι) : Prop where
  plain : PlainDl dir fs → PlainDl dir s.disk.view
  placed : ∀ k dl, s.placed k = some dl →
    serves dl.url dl.body ∧ (∃ f, slash ∉ f ∧ k = dir.target f) ∧ FileAt dir fs s.disk k dl.body
  main : ∀ f, slash ∉ f → s.placed (dir.target f) = none →
    s.disk.view (dir.target f) = fs (dir.target f) ∨
    (dir.target f = dir.dlDir ∧ fs (dir.target f) = none ∧
      s.disk.view (dir.target f) = some newDir)
  serving : ∀ i, (s.instances i).serving.Good dir serves fs s.disk s.placed
  apart : ∀ i j url url', i ≠ j → (s.instances i).serving.downloading = some url →
    (s.instances j).serving.downloading = some url' → dir.dlKey url ≠ dir.dlKey url'
  cache : ∀ i url p, (s.instances i).assetUrlToPath url = some p → Known dir fs s.placed p

theorem Serving.Good.sameAt {p : Serving} {placed : Str → Option Download}
    (h : p.Good dir serves fs d placed)
    (hd : ∀ url, p.downloading = some url → Disk.SameAt (dir.dlKey url) d d') :
    p.Good dir serves fs d' placed := by
  cases p with
  | fetching url ofs => exact Held.sameAt h (hd url rfl)
  | receiving url ofs body rest =>
    obtain ⟨hs, got, hgot, hheld⟩ := h
    exact ⟨hs, got, hgot, hheld.sameAt (hd url rfl)⟩
  | moving url body =>
    obtain ⟨hs, n, hn, hfile⟩ := h
    exact ⟨hs, n, (hd url rfl).view.trans hn, hfile⟩
  | _ => exact h

theorem scratch_target {v v' : Fs} {f : Str} (h : Scratch dir v v') (hf : slash ∉ f) :
    v' (dir.target f) = v (dir.target f) ∨
      (dir.target f = dir.dlDir ∧ v (dir.target f) = none ∧ v' (dir.target f) = some newDir) :=
  h _ fun _ _ => AssetDir.target_ne_dlPath dir hf

theorem Serving.Good.named {p : Serving} {placed : Str → Option Download}
    (h : p.Good dir serves fs d placed) (hp : p.downloading = some url) :
    d.names (dir.dlKey url) ≠ none := by
  intro hnone
  cases p with
  | fetching url₁ ofs =>
    obtain rfl := Option.some.inj hp
    have hname := Held.name h
    rw [hnone] at hname
    cases hname
  | receiving url₁ ofs body rest =>
    obtain rfl := Option.some.inj hp
    obtain ⟨_, got, _, hheld⟩ := h
    have hname := hheld.name
    rw [hnone] at hname
    cases hname
  | moving url₁ body =>
    obtain rfl := Option.some.inj hp
    obtain ⟨_, n, hn, _⟩ := h
    rw [Disk.view, hnone] at hn
    cases hn
  | _ => cases hp

theorem Serving.Good.mono {p : Serving} {placed placed' : Str → Option Download}
    (h : p.Good dir serves fs d placed) (hp : ∀ k, placed k ≠ none → placed' k ≠ none) :
    p.Good dir serves fs d placed' := by
  cases p with
  | caching url => exact hp _ h
  | _ => exact h

theorem Known.mono {placed placed' : Str → Option Download} {path : Str}
    (h : Known dir fs placed path) (hp : ∀ k, placed k ≠ none → placed' k ≠ none) :
    Known dir fs placed' path := by
  obtain ⟨f, hf, hk, hor⟩ := h
  exact ⟨f, hf, hk, hor.imp_left (hp _)⟩

theorem Intact.setInstance (h : Intact dir serves fs s) {c : Instance}
    (haside : Aside dir s.disk.view d.view)
    (hothers : ∀ j url, j ≠ i → (s.instances j).serving.downloading = some url →
      Disk.SameAt (dir.dlKey url) s.disk d)
    (hgood : c.serving.Good dir serves fs d s.placed)
    (hapart : ∀ url j url', c.serving.downloading = some url → j ≠ i →
      (s.instances j).serving.downloading = some url' → dir.dlKey url' ≠ dir.dlKey url)
    (hcache : ∀ url p, c.assetUrlToPath url = some p → Known dir fs s.placed p) :
    Intact dir serves fs ((s.setDisk d).setInstance i c) where
  plain hp := (h.plain hp).sameModes haside.modes
  placed k dl hdl := by
    obtain ⟨hs, ⟨f, hf, rfl⟩, n, hn, hfile⟩ := h.placed k dl hdl
    refine ⟨hs, ⟨f, hf, rfl⟩, n, ?_, hfile⟩
    rcases scratch_target haside.scratch hf with hsame | ⟨_, hnone, _⟩
    · exact hsame.trans hn
    · rw [hn] at hnone
      cases hnone
  main f hf hnone := by
    rcases scratch_target haside.scratch hf with hsame | ⟨hdir, hmiss, hmade⟩
    · rcases h.main f hf hnone with hfs | ⟨hdir, hmiss, hmade⟩
      · exact .inl (hsame.trans hfs)
      · exact .inr ⟨hdir, hmiss, hsame.trans hmade⟩
    · rcases h.main f hf hnone with hfs | ⟨_, _, hmade'⟩
      · exact .inr ⟨hdir, hfs.symm.trans hmiss, hmade⟩
      · rw [hmade'] at hmiss
        cases hmiss
  serving j := by
    rw [SharedDir.setInstance_instances]
    split
    · exact hgood
    · next hj => exact (h.serving j).sameAt (hothers j · hj)
  apart a b url url' hab ha hb := by
    rw [SharedDir.setInstance_instances] at ha hb
    split at ha
    · next hai =>
      obtain rfl := hai
      rw [if_neg hab.symm] at hb
      exact (hapart url b url' ha hab.symm hb).symm
    · split at hb
      · next hai hbi =>
        obtain rfl := hbi
        exact hapart url' a url hb hai ha
      · exact h.apart a b url url' hab ha hb
  cache j url p hp := by
    rw [SharedDir.setInstance_instances] at hp
    split at hp
    · exact hcache url p hp
    · exact h.cache j url p hp

theorem Intact.move (h : Intact dir serves fs s) {c : Instance}
    (hgood : c.serving.Good dir serves fs s.disk s.placed)
    (hdl : c.serving.downloading = none ∨
      c.serving.downloading = (s.instances i).serving.downloading)
    (hcache : ∀ url p, c.assetUrlToPath url = some p → Known dir fs s.placed p) :
    Intact dir serves fs (s.setInstance i c) := by
  refine h.setInstance (.refl _ _) (fun _ _ _ _ => .refl _ _) hgood ?_ hcache
  intro url j url' hurl hj hurl'
  rcases hdl with hnone | hown
  · rw [hnone] at hurl
    cases hurl
  · exact h.apart j i url' url hj hurl' (hown.symm.trans hurl)

/-! What the calls on an open download do. -/

namespace Held

theorem write (h : Held dir fs d url ofs got) (chunk : List UInt8) :
    Held dir fs d url (ofs.write chunk) (got ++ chunk) where
  name := h.name
  written := h.written
  offset := h.offset
  got := by
    rw [← h.got, List.append_assoc]
    rfl

theorem flush_node (h : Held dir fs d url ofs got) (n : Nat) :
    (ofs.flush n d).2.nodes ofs.ino = { d.nodes ofs.ino with
      data := (d.nodes ofs.ino).data ++ ofs.pending.take n } := by
  have hset : (ofs.flush n d).2.nodes ofs.ino =
      (d.nodes ofs.ino).writeAt ofs.offset (ofs.pending.take n) := Function.update_self _ _ _
  rw [hset, h.offset, Node.writeAt_end]

theorem flush (h : Held dir fs d url ofs got) (n : Nat) :
    Held dir fs (ofs.flush n d).2 url (ofs.flush n d).1 got where
  name := h.name
  written := by
    show ((ofs.flush n d).2.nodes ofs.ino).Written dir fs
    rw [h.flush_node]
    exact h.written
  offset := by
    show _ = ((ofs.flush n d).2.nodes ofs.ino).data.length
    rw [h.flush_node, List.length_append, ← h.offset]
    rfl
  got := by
    show ((ofs.flush n d).2.nodes ofs.ino).data ++ ofs.pending.drop n = got
    rw [h.flush_node, List.append_assoc, List.take_append_drop]
    exact h.got

theorem close (h : Held dir fs d url ofs got) : FileAt dir fs (ofs.close d) (dir.dlKey url) got := by
  have hflush := h.flush ofs.pending.length
  have hgot := hflush.got
  have hdrop : (ofs.flush ofs.pending.length d).1.pending = [] := List.drop_length
  rw [hdrop, List.append_nil] at hgot
  exact ⟨_, congrArg (Option.map _) hflush.name, hflush.written, hgot⟩

theorem flush_sameAt (h : Held dir fs d url ofs got) (n : Nat) {k : Str} (hk : k ≠ dir.dlKey url) :
    Disk.SameAt k d (ofs.flush n d).2 := .setNode h.name hk _

theorem flush_aside (h : Held dir fs d url ofs got) (n : Nat) :
    Aside dir d.view (ofs.flush n d).2.view := by
  have hview := Disk.view_setNode h.name
    ((d.nodes ofs.ino).writeAt ofs.offset (ofs.pending.take n))
  have hrefl : Scratch dir d.view d.view := .refl _
  have hnode : d.view (dir.dlPath (cStr (Fs.getFileName url))) = some (d.nodes ofs.ino) := by
    rw [← AssetDir.cStr_dlPath]
    exact congrArg (Option.map d.nodes) h.name
  show Aside dir d.view (d.setNode ofs.ino _).view
  rw [hview]
  refine ⟨hrefl.put (Fs.slash_notMem_getFileName url), .put ?_⟩
  rw [hnode]
  rfl

end Held

theorem Intact.flushed (h : Intact dir serves fs s) {n : Nat} {p : Serving}
    (hheld : Held dir fs s.disk url ofs got)
    (hurl : (s.instances i).serving.downloading = some url)
    (hgood : p.Good dir serves fs (ofs.flush n s.disk).2 s.placed)
    (hp : p.downloading = none ∨ p.downloading = some url) :
    Intact dir serves fs ((s.setDisk (ofs.flush n s.disk).2).goto i p) := by
  apply h.setInstance (hheld.flush_aside n)
  · intro j url' hj hurl'
    exact hheld.flush_sameAt n (h.apart j i url' url hj hurl' hurl)
  · exact hgood
  · intro url₁ j url' hurl₁ hj hurl'
    rcases hp with hnone | hown
    · rw [hnone] at hurl₁
      cases hurl₁
    · obtain rfl := Option.some.inj (hown.symm.trans hurl₁)
      exact h.apart j i url' url hj hurl' hurl
  · exact h.cache i

theorem known_target {placed : Str → Option Download} (dir : AssetDir) (fs : Fs) (url : Str)
    (h : placed (cStr (dir.urlTarget url)) ≠ none) :
    Known dir fs placed (dir.urlTarget url) := by
  have hkey : cStr (dir.urlTarget url) = dir.target (cStr (Fs.getFileName url)) :=
    AssetDir.cStr_target dir _
  exact ⟨_, AssetDir.cStr_noSlash (Fs.slash_notMem_getFileName url), hkey, .inl (hkey ▸ h)⟩

omit [DecidableEq ι] in
theorem known_found (h : Intact dir serves fs s) {ok : Bool}
    (hstat : (Fs.basicStat ok s.disk.view (dir.urlTarget url)).isFile = true) :
    Known dir fs s.placed (dir.urlTarget url) := by
  have hf := Fs.slash_notMem_getFileName url
  have hkey : cStr (dir.urlTarget url) = dir.target (cStr (Fs.getFileName url)) :=
    AssetDir.cStr_target dir _
  have hf' := AssetDir.cStr_noSlash hf
  obtain ⟨_, n, hn, hbit⟩ := Fs.basicStat_isFile.mp hstat
  have hdir : newDir.mode &&& S_IFREG = 0 := by decide
  refine ⟨_, hf', hkey, ?_⟩
  by_cases hp : s.placed (dir.target (cStr (Fs.getFileName url))) = none
  · right
    rw [AssetDir.urlTarget, lookup_target hf] at hn
    split at hn
    · obtain rfl := Option.some.inj hn
      exact absurd hdir hbit
    · rcases h.main _ hf' hp with hsame | ⟨_, _, hmade⟩
      · exact ⟨n, hsame.symm.trans hn, hbit⟩
      · obtain rfl := Option.some.inj (hmade.symm.trans hn)
        exact absurd hdir hbit
  · exact .inl hp

theorem Intact.remember (h : Intact dir serves fs s)
    (hknown : Known dir fs s.placed (dir.urlTarget url)) :
    Intact dir serves fs (s.remember i url (dir.urlTarget url)) := by
  refine h.move trivial (.inl rfl) fun url' p hp => ?_
  dsimp only at hp
  rcases eq_or_ne url' url with rfl | hne
  · rw [Function.update_self] at hp
    obtain rfl := Option.some.inj hp
    exact hknown
  · rw [Function.update_of_ne hne] at hp
    exact h.cache i url' p hp

theorem rename_sameAt {f : Str} (d : FsDisk) (url : Str) (hf : slash ∉ f)
    (hne : dir.target f ≠ cStr (dir.urlTarget url)) : Disk.SameAt (dir.target f) d
      (d.rename (dir.dlKey url) (cStr (dir.urlTarget url))) := by
  apply Disk.SameAt.rename _ hne
  rw [AssetDir.dlKey, AssetDir.urlDlPath, AssetDir.cStr_dlPath]
  exact AssetDir.target_ne_dlPath dir hf

namespace Intact
variable (h : Intact dir serves fs s) {body : List UInt8}
include h

omit [DecidableEq ι] in
theorem placed_renamed (due : (s.instances i).serving = .moving url body) {k : Str}
    {dl : Download} (hdl : (s.place (dir.urlTarget url) ⟨url, body⟩).placed k = some dl) :
    serves dl.url dl.body ∧ (∃ f, slash ∉ f ∧ k = dir.target f) ∧
      FileAt dir fs (s.disk.rename (dir.dlKey url) (cStr (dir.urlTarget url))) k dl.body := by
  have hgood := h.serving i
  rw [due] at hgood
  obtain ⟨hserves, n, hn, hfile⟩ := hgood
  have htgt : cStr (dir.urlTarget url) = dir.target (cStr (Fs.getFileName url)) :=
    AssetDir.cStr_target dir _
  have hf' := AssetDir.cStr_noSlash (Fs.slash_notMem_getFileName url)
  rw [SharedDir.place_placed] at hdl
  split at hdl
  · next hk =>
    obtain rfl := Option.some.inj hdl
    refine ⟨hserves, ⟨_, hf', hk.trans htgt⟩, n, ?_, hfile⟩
    rw [Disk.view_rename, hk, Function.update_self]
    exact hn
  · next hk =>
    obtain ⟨hs, ⟨f, hf, rfl⟩, m, hm, hfile'⟩ := h.placed k dl hdl
    exact ⟨hs, ⟨f, hf, rfl⟩, m, (rename_sameAt _ url hf hk).view.trans hm, hfile'⟩

omit [DecidableEq ι] in
theorem plain_renamed (url : Str) (hp : PlainDl dir fs) :
    PlainDl dir (s.disk.rename (dir.dlKey url) (cStr (dir.urlTarget url))).view := by
  rw [Disk.view_rename]
  exact ((h.plain hp).put_none (dir.urlDlPath url)).put_target (Fs.slash_notMem_getFileName url)

omit [DecidableEq ι] in
theorem main_renamed {f : Str} (hf : slash ∉ f)
    (hnone : (s.place (dir.urlTarget url) ⟨url, body⟩).placed (dir.target f) = none) :
    let d := s.disk.rename (dir.dlKey url) (cStr (dir.urlTarget url))
    d.view (dir.target f) = fs (dir.target f) ∨
    (dir.target f = dir.dlDir ∧ fs (dir.target f) = none ∧
      d.view (dir.target f) = some newDir) := by
  rw [SharedDir.place_placed] at hnone
  split at hnone
  · cases hnone
  · next hk =>
    have hview := (rename_sameAt s.disk url hf hk).view
    rcases h.main f hf hnone with hfs | ⟨hdir, hmiss, hmade⟩
    · exact .inl (hview.trans hfs)
    · exact .inr ⟨hdir, hmiss, hview.trans hmade⟩

omit [DecidableEq ι] in
theorem serving_renamed (due : (s.instances i).serving.downloading = some url) {j : ι}
    (hj : j ≠ i) :
    (s.instances j).serving.Good dir serves fs
      (s.disk.rename (dir.dlKey url) (cStr (dir.urlTarget url))) s.placed := by
  -- no other download has the name that the rename takes or the one it gives
  have htgt : cStr (dir.urlTarget url) = dir.target (cStr (Fs.getFileName url)) :=
    AssetDir.cStr_target dir _
  have hf' := AssetDir.cStr_noSlash (Fs.slash_notMem_getFileName url)
  refine (h.serving j).sameAt fun url' hurl' => ?_
  apply Disk.SameAt.rename (h.apart j i url' url hj hurl' due)
  rw [htgt, AssetDir.dlKey, AssetDir.urlDlPath, AssetDir.cStr_dlPath]
  exact (AssetDir.target_ne_dlPath dir hf').symm

theorem renamed {ok : Bool} (due : (s.instances i).serving = .moving url body)
    (hmv : s.disk.mv ok (dir.urlDlPath url) (dir.urlTarget url) = some d) :
    Intact dir serves fs
      (((s.setDisk d).place (dir.urlTarget url) ⟨url, body⟩).goto i (.caching url)) := by
  obtain rfl := FsDisk.mv_rename hmv
  have hown : (s.instances i).serving.downloading = some url := by
    rw [due]
    rfl
  have hmono : ∀ k, s.placed k ≠ none →
      (s.place (dir.urlTarget url) ⟨url, body⟩).placed k ≠ none :=
    fun k hk => s.place_ne_none _ _ hk
  constructor
  case plain => exact fun hp => h.plain_renamed url hp
  case placed => exact fun k dl hdl => h.placed_renamed due hdl
  case main => exact fun f hf hnone => h.main_renamed hf hnone
  case serving =>
    intro j
    rw [SharedDir.goto_serving]
    split
    · show (s.place (dir.urlTarget url) ⟨url, body⟩).placed _ ≠ none
      rw [SharedDir.place_placed, if_pos rfl]
      exact Option.some_ne_none _
    · next hj => exact (h.serving_renamed hown hj).mono hmono
  case apart =>
    intro a b url₁ url₂ hab ha hb
    rw [SharedDir.goto_serving] at ha hb
    split at ha
    · cases ha
    · split at hb
      · cases hb
      · exact h.apart a b url₁ url₂ hab ha hb
  case cache =>
    intro j url' p hp
    rw [SharedDir.goto_assetUrlToPath] at hp
    exact (h.cache j url' p hp).mono hmono

end Intact

theorem touch_aside (d : FsDisk) (mkdirOk fopenOk : Bool) (url : Str) :
    Aside dir d.view (d.touch mkdirOk fopenOk (dir.urlDlPath url)).2.view := by
  have hf := Fs.slash_notMem_getFileName url
  have haside : Aside dir d.view (Fs.touch mkdirOk fopenOk d.view (dir.urlDlPath url)).2 :=
    ⟨(touch_dlPath mkdirOk fopenOk hf).1, (touch_dlPath mkdirOk fopenOk hf).2.1⟩
  rw [FsDisk.view_touch] at haside
  exact haside

theorem ofstreamOpen_aside {ok : Bool} {ino : Ino Str}
    (h : d.ofstreamOpen ok (dir.urlDlPath url) = some (ino, d')) :
    Aside dir d.view d'.view := by
  have hview : Fs.ofstreamOpen ok d.view (dir.urlDlPath url) = some d'.view := by
    rw [← FsDisk.view_ofstreamOpen, h]
    rfl
  have hf := Fs.slash_notMem_getFileName url
  obtain ⟨_, _, hput⟩ := ofstreamOpen_dlPath hf hview
  rw [hput]
  exact ⟨(Scratch.refl _).put hf, .put rfl⟩

theorem Intact.touched (h : Intact dir serves fs s) (mkdirOk fopenOk : Bool) {p : Serving}
    (hp : p.downloading = none) (hgood : ∀ d, p.Good dir serves fs d s.placed) :
    Intact dir serves fs
      ((s.setDisk (s.disk.touch mkdirOk fopenOk (dir.urlDlPath url)).2).goto i p) := by
  apply h.setInstance (touch_aside s.disk mkdirOk fopenOk url)
  · intro j url' _ hurl'
    exact FsDisk.touch_kept mkdirOk fopenOk _ ((h.serving j).named hurl')
  · exact hgood _
  · intro url₁ j url' hurl₁
    rw [hp] at hurl₁
    cases hurl₁
  · exact h.cache i

theorem ofstreamOpen_held {ok : Bool} {ino : Ino Str}
    (hp : PlainDl dir fs → PlainDl dir d.view)
    (h : d.ofstreamOpen ok (dir.urlDlPath url) = some (ino, d')) :
    Held dir fs d' url ⟨ino, 0, []⟩ [] := by
  obtain ⟨hname, hdata, hopen, _⟩ := FsDisk.ofstreamOpen_spec h
  have hf := AssetDir.cStr_noSlash (Fs.slash_notMem_getFileName url)
  have hnode : d'.view (dir.dlPath (cStr (Fs.getFileName url))) = some (d'.nodes ino) := by
    rw [← AssetDir.cStr_dlPath]
    exact congrArg (Option.map d'.nodes) hname
  have hplain : PlainDl dir fs → (d'.nodes ino).regular = true :=
    fun hfs => (hp hfs).sameModes (ofstreamOpen_aside h).modes _ _ hf hnode hopen
  refine ⟨hname, ⟨hopen, hplain⟩, ?_, ?_⟩
  · rw [hdata]
    rfl
  · rw [hdata]
    rfl

theorem Intact.opened (h : Intact dir serves fs s) {ok : Bool} {ino : Ino Str}
    (hg : Undisturbed dir s (i, .opened url))
    (hofs : s.disk.ofstreamOpen ok (dir.urlDlPath url) = some (ino, d)) :
    Held dir fs d url ⟨ino, 0, []⟩ [] ∧
    Intact dir serves fs ((s.setDisk d).goto i (.fetching url ⟨ino, 0, []⟩)) := by
  obtain ⟨_, _, _, hsame⟩ := FsDisk.ofstreamOpen_spec hofs
  have hheld : Held dir fs d url ⟨ino, 0, []⟩ [] := ofstreamOpen_held h.plain hofs
  refine ⟨hheld, h.setInstance (ofstreamOpen_aside hofs) ?_ hheld ?_ (h.cache i)⟩
  · intro j url' hj hurl'
    exact hsame _ (hg j url' hj hurl')
  · intro url₁ j url' hurl₁ hj hurl'
    obtain rfl := Option.some.inj hurl₁
    exact hg j url' hj hurl'

theorem intact_step {e : ι × DirEvent} (h : Intact dir serves fs s) (hg : Undisturbed dir s e)
    (hs : DirStep dir serves s e t) : Intact dir serves fs t := by
  have hgo : ∀ i p, p.downloading = none ∨
      p.downloading = (s.instances i).serving.downloading →
      p.Good dir serves fs s.disk s.placed → Intact dir serves fs (s.goto i p) :=
    fun i p hp hgood => h.move hgood hp (h.cache i)
  have hdue : ∀ i p, (s.instances i).serving = p → p.Good dir serves fs s.disk s.placed :=
    fun i p due => due ▸ h.serving i
  have hown : ∀ i p, (s.instances i).serving = p →
      (s.instances i).serving.downloading = p.downloading := fun i p due => due ▸ rfl
  cases hs with
  | cached due hit => exact h
  | missed due miss => exact hgo _ _ (.inl rfl) trivial
  | found due stat => exact h.remember (known_found h stat)
  | absent due stat => exact hgo _ _ (.inl rfl) trivial
  | touched due ok => exact h.touched _ _ rfl fun _ => trivial
  | touchFailed due err => exact h.touched _ _ rfl fun _ => trivial
  | opened due ofs => exact (h.opened hg ofs).2
  | openFailed due ofs => exact hgo _ _ (.inl rfl) trivial
  | started due gen =>
    have hheld : Held _ _ _ _ _ _ := hdue _ _ due
    exact hgo _ _ (.inr (hown _ _ due).symm) ⟨gen, [], rfl, hheld⟩
  | startFailed due =>
    have hheld : Held _ _ _ _ _ _ := hdue _ _ due
    exact h.flushed hheld (hown _ _ due) trivial (.inl rfl)
  | chunk due =>
    obtain ⟨gen, got, hgot, hheld⟩ := hdue _ _ due
    have hrest := hgot.trans (List.append_assoc got _ _).symm
    exact hgo _ _ (.inr (hown _ _ due).symm) ⟨gen, _, hrest, hheld.write _⟩
  | flushed n due =>
    obtain ⟨gen, got, hgot, hheld⟩ := hdue _ _ due
    exact h.flushed hheld (hown _ _ due) ⟨gen, got, hgot, hheld.flush n⟩ (.inr rfl)
  | threw due =>
    obtain ⟨gen, got, hgot, hheld⟩ := hdue _ _ due
    exact h.flushed hheld (hown _ _ due) trivial (.inl rfl)
  | done due =>
    obtain ⟨gen, got, hgot, hheld⟩ := hdue _ _ due
    obtain rfl := hgot.trans (List.append_nil got)
    exact h.flushed hheld (hown _ _ due) ⟨gen, hheld.close⟩ (.inr rfl)
  | renamed due mv => exact h.renamed due mv
  | renameFailed due mv => exact hgo _ _ (.inl rfl) trivial
  | remembered due => exact h.remember (known_target dir fs _ (hdue _ _ due))
  | killed => exact h.move trivial (.inl rfl) fun _ _ hp => nomatch hp

omit [DecidableEq ι] in
theorem intact_start (dir : AssetDir) (serves : Str → List UInt8 → Prop) (fs : Fs) :
    Intact dir serves fs (⟨.ofView newFile fs, fun _ => .start, fun _ => none⟩ : SharedDir ι) where
  plain hp := (Disk.view_ofView newFile fs).symm ▸ hp
  placed _ _ h := nomatch h
  main _ _ _ := .inl (congrFun (Disk.view_ofView newFile fs) _)
  serving _ := trivial
  apart _ _ _ _ _ h := nomatch h
  cache _ _ _ h := nomatch h

theorem intact_run {tr : List (ι × DirEvent)}
    (h : ((dirInstances ι dir serves fs).guard (Undisturbed dir)).Run tr s) :
    Intact dir serves fs s := by
  apply h.invariant
  · rintro s rfl
    exact intact_start dir serves fs
  · rintro s e t hi ⟨hg, hs⟩
    exact intact_step hi hg hs

/-! What is reported. -/

theorem placed_step {e : ι × DirEvent} (hs : DirStep dir serves s e t) {k : Str}
    (hk : s.placed k ≠ none) : t.placed k ≠ none := by
  cases hs with
  | @renamed i url body ok d due mv =>
    show (s.place (dir.urlTarget url) ⟨url, body⟩).placed k ≠ none
    rw [SharedDir.place_placed]
    split
    · exact Option.some_ne_none _
    · exact hk
  | _ => exact hk

theorem reported_step {path : Str} (h : Intact dir serves fs s)
    (hs : DirStep dir serves s (i, .reported url path) t) :
    path = [] ∨ Known dir fs s.placed path := by
  cases hs with
  | cached due hit => exact .inr (h.cache i url path hit)
  | found due stat => exact .inr (known_found h stat)
  | remembered due =>
    have hgood := h.serving i
    rw [due] at hgood
    exact .inr (known_target dir fs url hgood)
  | _ => exact .inl rfl

theorem reported_run {tr : List (ι × DirEvent)}
    (h : ((dirInstances ι dir serves fs).guard (Undisturbed dir)).Run tr s) :
    ∀ i url path, (i, .reported url path) ∈ tr → path = [] ∨ Known dir fs s.placed path := by
  induction h with
  | start _ => exact fun _ _ _ h => nomatch h
  | @next tr s t e hr hs ih =>
    intro i url path hmem
    have hmono : Known dir fs s.placed path → Known dir fs t.placed path :=
      fun hk => hk.mono fun k => placed_step hs.2
    rcases List.mem_append.mp hmem with hold | hnew
    · exact (ih i url path hold).imp_right hmono
    · obtain rfl := List.mem_singleton.mp hnew
      exact (reported_step (intact_run hr) hs.2).imp_right hmono

/-- The path is that of a file placed there, or of one there from the start and not replaced. -/
def NamesFile (fs : Fs) (s : SharedDir ι) (path : Str) : Prop :=
  (∃ dl, s.placed (cStr path) = some dl) ∨
    ∃ n, fs (cStr path) = some n ∧ s.disk.view (cStr path) = some n

omit [DecidableEq ι] in
theorem Intact.namesFile (h : Intact dir serves fs s) {path : Str}
    (hk : Known dir fs s.placed path) : NamesFile fs s path := by
  obtain ⟨f, hf, hkey, hor⟩ := hk
  unfold NamesFile
  rw [hkey]
  cases hp : s.placed (dir.target f) with
  | some dl => exact .inl ⟨dl, rfl⟩
  | none =>
    rcases hor with hne | ⟨n, hn, _⟩
    · exact absurd hp hne
    · rcases h.main f hf hp with hsame | ⟨_, hmiss, _⟩
      · exact .inr ⟨n, hn, hsame.trans hn⟩
      · rw [hn] at hmiss
        cases hmiss

/-- Over a web of fixed bodies: while no instance opens the file another is downloading to, every
file that a rename has placed is complete, and every path reported names such a file or one that
was there from the start. -/
theorem undisturbed_complete {web : Str → List UInt8} {tr : List (ι × DirEvent)}
    (h : ((dirInstances ι dir (fun url body => body = web url) fs).guard (Undisturbed dir)).Run
      tr s) :
    (∀ k dl, s.placed k = some dl → FileAt dir fs s.disk k (web dl.url)) ∧
    ∀ i url path, (i, .reported url path) ∈ tr → path ≠ [] → NamesFile fs s path := by
  have hi := intact_run h
  constructor
  · intro k dl hdl
    obtain ⟨hbody, _, hfile⟩ := hi.placed k dl hdl
    exact hbody ▸ hfile
  · intro i url path hmem hne
    have hknown := (reported_run h i url path hmem).resolve_left hne
    exact hi.namesFile hknown

theorem small_noNul : 0 ∉ lit "/a" := by decide

def smallDir : AssetDir := ⟨lit "/a", small_noNul⟩

def smallInstances : System (SharedDir Bool) (Bool × DirEvent) :=
  dirInstances Bool smallDir (fun _ body => body = [1, 2]) fun _ => none

theorem small_undisturbed {s : SharedDir Bool} (h : (s.instances true).serving = .idle) :
    Undisturbed smallDir s (false, .opened (lit "h/m")) := by
  intro j url' hj hurl'
  cases j with
  | false => exact absurd rfl hj
  | true =>
    rw [h] at hurl'
    cases hurl'

theorem undisturbed_complete_m : ∃ (tr : _) (s : SharedDir Bool),
    (smallInstances.guard (Undisturbed smallDir)).Run tr s ∧
      FileAt smallDir (fun _ => none) s.disk (lit "/a/m") [1, 2] ∧
      (false, .reported (lit "h/m") (lit "/a/m")) ∈ tr ∧
      NamesFile (fun _ => none) s (lit "/a/m") := by
  have hstart : (smallInstances.guard (Undisturbed smallDir)).Run [] _ := .start rfl
  have hopened := opening_run false (lit "h/m") (fun _ => trivial) hstart rfl rfl rfl
    rfl rfl (small_undisturbed rfl)
  have hmoving := receiving_run [1, 2] (fun _ => trivial) hopened (SharedDir.goto_self _ _ _) rfl
    fun _ => trivial
  have hplaced := publishing_run hmoving (SharedDir.goto_self _ _ _) rfl (fun _ => trivial)
    fun _ _ => trivial
  have h := undisturbed_complete hplaced
  refine ⟨_, _, hplaced, h.1 (lit "/a/m") ⟨lit "h/m", [1, 2]⟩ rfl, ?_, ?_⟩
  · exact List.mem_append_right _ (List.mem_singleton_self _)
  · apply h.2 false (lit "h/m") (lit "/a/m") _ (by decide)
    exact List.mem_append_right _ (List.mem_singleton_self _)

/-- The other instance opens the download, and so truncates it, before it is renamed. -/
theorem truncated_by_other : ∃ (tr : _) (s : SharedDir Bool), smallInstances.Run tr s ∧
    s.placed (lit "/a/m") = some ⟨lit "h/m", [1, 2]⟩ ∧
    ¬ FileAt smallDir (fun _ => none) s.disk (lit "/a/m") [1, 2] ∧
    (false, .reported (lit "h/m") (lit "/a/m")) ∈ tr := by
  have hstart : (smallInstances.guard fun _ _ => True).Run [] _ := .start rfl
  have hopened := opening_run false (lit "h/m") (fun _ => trivial) hstart rfl rfl rfl
    rfl rfl trivial
  have hmoving := receiving_run [1, 2] (fun _ => trivial) hopened (SharedDir.goto_self _ _ _) rfl
    fun _ => trivial
  have hother := opening_run true (lit "h/m") (fun _ => trivial) hmoving rfl rfl rfl
    rfl rfl trivial
  have hplaced := publishing_run (i := false) hother rfl rfl (fun _ => trivial) fun _ _ => trivial
  refine ⟨_, _, hplaced.of_guard, rfl, ?_, ?_⟩
  · rintro ⟨n, hn, _, hdata⟩
    obtain rfl : ⟨0o100644, []⟩ = n := Option.some.inj hn
    cases hdata
  · exact List.mem_append_right _ (List.mem_singleton_self _)

end Acord
