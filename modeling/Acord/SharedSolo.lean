import Acord.AssetDownload
import Acord.SharedRuns

/-! What the service makes of a URL in one go is what an instance makes of it step by step when no
other instance steps in between. -/

namespace Acord
open Ac Transition Inodes

variable {ι : Type} {dir : AssetDir} {fs : Fs} {s t : SharedDir ι} {i : ι}
  {m m' : AssetMgr} {o : Outcomes} {url : Str} {tr : List (ι × DirEvent)} {ofs : Handle}
  {got : List UInt8}

structure Views (dir : AssetDir) (s : SharedDir ι) (i : ι) (m : AssetMgr) : Prop where
  dir : m.mainAssetDir = dir
  cache : m.assetUrlToPath = (s.instances i).assetUrlToPath
  fs : m.fs = s.disk.view

theorem Views.dlPath (h : Views dir s i m) : m.dlPath url = dir.urlDlPath url := by
  rw [← h.dir]
  rfl

theorem Views.targetPath (h : Views dir s i m) : m.targetPath url = dir.urlTarget url := by
  rw [← h.dir]
  rfl

variable [DecidableEq ι]

theorem Views.goto {d : FsDisk} {p : Serving} (h : Views dir s i m)
    (hd : m'.mainAssetDir = m.mainAssetDir) (hc : m'.assetUrlToPath = m.assetUrlToPath)
    (hfs : m'.fs = d.view) : Views dir ((s.setDisk d).goto i p) i m' where
  dir := hd.trans h.dir
  cache := by
    rw [SharedDir.goto_assetUrlToPath]
    exact hc.trans h.cache
  fs := hfs

def Finishes (dir : AssetDir) (fs : Fs) (i : ι) (url : Str) (tr : List (ι × DirEvent))
    (result : Except Exn Str) (m : AssetMgr) : Prop :=
  ∃ tr' t, (dirInstances ι dir (fun _ _ => True) fs).Run (tr ++ tr') t ∧
    (t.instances i).serving = .idle ∧ Views dir t i m ∧ (∀ e ∈ tr', e.1 = i) ∧
    ∀ path, result = .ok path → (i, .reported url path) ∈ tr'

theorem Finishes.step {e : DirEvent} {result : Except Exn Str}
    (h : Finishes dir fs i url (tr ++ [(i, e)]) result m) :
    Finishes dir fs i url tr result m := by
  obtain ⟨tr', t, hr, hidle, hview, hown, hreport⟩ := h
  refine ⟨(i, e) :: tr', t, ?_, hidle, hview, ?_, ?_⟩
  · rwa [List.append_assoc] at hr
  · exact List.forall_mem_cons.mpr ⟨rfl, hown⟩
  · exact fun path hp => List.mem_cons_of_mem _ (hreport path hp)

theorem Finishes.last {e : DirEvent} {result : Except Exn Str}
    (hr : (dirInstances ι dir (fun _ _ => True) fs).Run tr s)
    (hs : DirStep dir (fun _ _ => True) s (i, e) t) (hidle : (t.instances i).serving = .idle)
    (hview : Views dir t i m) (hreport : ∀ path, result = .ok path → e = .reported url path) :
    Finishes dir fs i url tr result m := by
  refine ⟨[(i, e)], t, hr.next hs, hidle, hview, List.forall_mem_singleton.mpr rfl, ?_⟩
  intro path hp
  rw [hreport path hp]
  exact List.mem_singleton_self _

theorem Finishes.failed {s₀ : SharedDir ι} {d : FsDisk}
    (hr : (dirInstances ι dir (fun _ _ => True) fs).Run tr s₀)
    (hs : DirStep dir (fun _ _ => True) s₀ (i, .reported url []) ((s.setDisk d).goto i .idle))
    (hview : Views dir ((s.setDisk d).goto i .idle) i m) :
    Finishes dir fs i url tr (.ok []) m := by
  refine .last hr hs (SharedDir.goto_self _ _ _) hview ?_
  intro path hp
  rw [← Except.ok.inj hp]

theorem Views.remember {path : Str} (h : Views dir s i m) :
    Views dir (s.remember i url path) i (m.setPath url path) where
  dir := h.dir
  cache := by
    rw [SharedDir.remember, SharedDir.setInstance_instances, if_pos rfl, ← h.cache]
    rfl
  fs := h.fs

theorem remember_idle (s : SharedDir ι) (i : ι) (url path : Str) :
    ((s.remember i url path).instances i).serving = .idle := by
  rw [SharedDir.remember, SharedDir.setInstance_instances, if_pos rfl]

theorem publish_finishes {body : List UInt8}
    (hr : (dirInstances ι dir (fun _ _ => True) fs).Run tr s) (h : Views dir s i m)
    (due : (s.instances i).serving = .moving url body) :
    Finishes dir fs i url tr (.ok (m.publish o url).1) (m.publish o url).2 := by
  have hmv := FsDisk.view_mv o.mv s.disk (dir.urlDlPath url) (dir.urlTarget url)
  rw [← h.fs] at hmv
  obtain rfl := h.dir
  cases hd : s.disk.mv o.mv (m.mainAssetDir.urlDlPath url) (m.mainAssetDir.urlTarget url) with
  | none =>
    rw [hd] at hmv
    rw [publish_none hmv.symm]
    exact .failed hr (.renameFailed due hd) (h.goto rfl rfl h.fs)
  | some d =>
    rw [hd] at hmv
    rw [publish_some hmv.symm]
    have hmoved : DirStep m.mainAssetDir (fun _ _ => True) s (i, .renamed url) _ :=
      .renamed due hd
    have hcached : DirStep m.mainAssetDir (fun _ _ => True)
        (((s.setDisk d).place (m.mainAssetDir.urlTarget url) ⟨url, body⟩).goto i (.caching url))
        (i, .reported url (m.mainAssetDir.urlTarget url)) _ :=
      .remembered (SharedDir.goto_self _ i _)
    have hplaced : Views m.mainAssetDir
        (((s.setDisk d).place (m.mainAssetDir.urlTarget url) ⟨url, body⟩).goto i (.caching url)) i
        ((m.record (.rename (m.dlPath url) (m.targetPath url))).setFs d.view) := by
      refine ⟨rfl, ?_, rfl⟩
      rw [SharedDir.goto_assetUrlToPath]
      exact h.cache
    apply Finishes.step
    refine .last (hr.next hmoved) hcached (remember_idle _ _ _ _) hplaced.remember ?_
    intro path hp
    rw [← Except.ok.inj hp]
    rfl

theorem writeAt_nil {n : Node} (h : n.data = []) : n.writeAt 0 [] = n := by
  obtain ⟨mode, data⟩ := n
  obtain rfl : data = [] := h
  rfl

namespace Held

theorem close_view (h : Held dir fs d url ofs got) (hname : fileKey url ∉ Fs.dirNames) :
    (ofs.close d).view = Fs.store d.view (dir.urlDlPath url) got := by
  have hlookup : Fs.lookup d.view (dir.urlDlPath url) = some (d.nodes ofs.ino) := by
    have hcut : cStr (Fs.getFileName url) ∉ Fs.dirNames := hname
    have hview : d.view (dir.dlKey url) = some (d.nodes ofs.ino) := congrArg _ h.name
    rw [AssetDir.urlDlPath, lookup_dlPath (Fs.slash_notMem_getFileName url), if_neg hcut]
    rwa [AssetDir.dlKey, AssetDir.urlDlPath, AssetDir.cStr_dlPath] at hview
  have hnode : (d.nodes ofs.ino).writeAt ofs.offset (ofs.pending.take ofs.pending.length) =
      { d.nodes ofs.ino with data := got } := by
    rw [List.take_length, h.offset, Node.writeAt_end, h.got]
  unfold Fs.store
  rw [hlookup]
  show (d.setNode ofs.ino _).view = Function.update d.view (dir.dlKey url) _
  rw [hnode]
  exact Disk.view_setNode h.name _

theorem close_empty (h : Held dir fs d url ofs []) : (ofs.close d).view = d.view := by
  obtain ⟨hdata, hpending⟩ := List.append_eq_nil_iff.mp h.got
  have hoffset : ofs.offset = 0 := by rw [h.offset, hdata, List.length_nil]
  have hnode : (d.nodes ofs.ino).writeAt ofs.offset (ofs.pending.take ofs.pending.length) =
      d.nodes ofs.ino := by
    rw [hoffset, hpending, List.take_nil, writeAt_nil hdata]
  show (d.setNode ofs.ino _).view = d.view
  rw [hnode, Disk.view_setNode h.name]
  apply Function.update_eq_self_iff.mpr
  exact (congrArg (Option.map d.nodes) h.name).symm

end Held

theorem fetch_finishes {fs₁ : Fs} (hr : (dirInstances ι dir (fun _ _ => True) fs).Run tr s)
    (h : Views dir s i m) (due : (s.instances i).serving = .fetching url ofs)
    (hheld : Held dir fs₁ s.disk url ofs []) (hname : fileKey url ∉ Fs.dirNames) :
    Finishes dir fs i url tr (.ok (m.fetch o url).1) (m.fetch o url).2 := by
  have hclose : ∀ body : List UInt8, (m.fs.store (m.dlPath url) body) =
      ((ofs.write body).close s.disk).view := by
    intro body
    rw [(hheld.write body).close_view hname, h.fs, h.dlPath]
    rfl
  cases hg : o.getSync with
  | error e =>
    rw [fetch_refused hg]
    exact .failed hr (.startFailed due) (h.goto rfl rfl (h.fs.trans hheld.close_empty.symm))
  | ok rs =>
    cases hl : downloadLoop o.room 0 ⟨false, []⟩ rs with
    | mk res out =>
      -- the bytes that get into the file, received as one chunk
      have hreceived := (received_run (P := fun _ _ => True) (out.close o.closeLoss)
        (fun _ => trivial) (hr.guard_of fun _ _ => trivial) due trivial).of_guard
      have hserving := s.goto_self i
        (.receiving url (ofs.write (out.close o.closeLoss)) (out.close o.closeLoss) [])
      cases res with
      | error e =>
        rw [fetch_broken hg hl]
        have hstep : DirStep dir (fun _ _ => True) _ (i, .reported url []) _ := .threw hserving
        rw [SharedDir.goto_setDisk_goto] at hstep
        apply Finishes.step
        apply Finishes.step
        exact .failed hreceived hstep (h.goto rfl rfl (hclose _))
      | ok v =>
        rw [fetch_done hg hl]
        have hstep : DirStep dir (fun _ _ => True) _ (i, .done url (out.close o.closeLoss)) _ :=
          .done hserving
        rw [SharedDir.goto_setDisk_goto] at hstep
        apply Finishes.step
        apply Finishes.step
        apply Finishes.step
        exact publish_finishes (hreceived.next hstep) (h.goto rfl rfl (hclose _))
          (SharedDir.goto_self _ _ _)

theorem open_finishes (hr : (dirInstances ι dir (fun _ _ => True) fs).Run tr s)
    (h : Views dir s i m) (due : (s.instances i).serving = .opening url) :
    (∀ fs', Fs.ofstreamOpen o.ofsOpen m.fs (m.dlPath url) = some fs' →
      Finishes dir fs i url tr (.ok ((m.setFs fs').fetch o url).1)
        ((m.setFs fs').fetch o url).2) ∧
    (Fs.ofstreamOpen o.ofsOpen m.fs (m.dlPath url) = none →
      Finishes dir fs i url tr (.ok []) m) := by
  have hview := FsDisk.view_ofstreamOpen o.ofsOpen s.disk (dir.urlDlPath url)
  rw [h.fs, h.dlPath]
  constructor
  · intro fs' hopen
    rw [hopen] at hview
    obtain ⟨⟨ino, d⟩, hofs, rfl⟩ := Option.map_eq_some_iff.mp hview
    obtain ⟨hname, _, _⟩ := ofstreamOpen_dlPath (Fs.slash_notMem_getFileName url) hopen
    have hopened : DirStep dir (fun _ _ => True) s (i, .opened url) _ := .opened due hofs
    apply Finishes.step
    have hheld : Held dir s.disk.view d url ⟨ino, 0, []⟩ [] := ofstreamOpen_held id hofs
    exact fetch_finishes (hr.next hopened) (h.goto rfl rfl rfl) (SharedDir.goto_self _ _ _) hheld
      hname
  · intro hnone
    rw [hnone] at hview
    exact .failed hr (.openFailed due (Option.map_eq_none_iff.mp hview)) (h.goto rfl rfl h.fs)

theorem download_finishes (hr : (dirInstances ι dir (fun _ _ => True) fs).Run tr s)
    (h : Views dir s i m) (due : (s.instances i).serving = .touching url) :
    Finishes dir fs i url tr (m.download o url).1 (m.download o url).2 := by
  have htouch : touched o url m = ((s.disk.touch o.mkdir o.fopen (dir.urlDlPath url)).1,
      (s.disk.touch o.mkdir o.fopen (dir.urlDlPath url)).2.view) := by
    unfold touched
    rw [h.fs, h.dlPath, FsDisk.view_touch]
  cases hres : (s.disk.touch o.mkdir o.fopen (dir.urlDlPath url)).1 with
  | error e =>
    rw [hres] at htouch
    rw [download_error htouch]
    have hstep : DirStep dir (fun _ _ => True) s (i, .internal) _ := .touchFailed due hres
    exact .last hr hstep (SharedDir.goto_self _ _ _) (h.goto rfl rfl rfl) nofun
  | ok v =>
    rw [hres] at htouch
    obtain ⟨hopens, hfails⟩ := download_touched htouch
    have hstep : DirStep dir (fun _ _ => True) s (i, .internal) _ := .touched due hres
    have hopening := open_finishes (o := o) (hr.next hstep)
      (m := opening url m (s.disk.touch o.mkdir o.fopen (dir.urlDlPath url)).2.view)
      (h.goto rfl rfl rfl) (SharedDir.goto_self _ _ _)
    apply Finishes.step
    cases hofs : Fs.ofstreamOpen o.ofsOpen
      (s.disk.touch o.mkdir o.fopen (dir.urlDlPath url)).2.view (m.dlPath url) with
    | none =>
      rw [hfails hofs]
      exact hopening.2 hofs
    | some fs' =>
      rw [hopens fs' hofs]
      exact hopening.1 fs' hofs

theorem find_finishes (hr : (dirInstances ι dir (fun _ _ => True) fs).Run tr s)
    (h : Views dir s i m) (due : (s.instances i).serving = .idle) :
    Finishes dir fs i url tr (m.find o url).1 (m.find o url).2 := by
  rcases find_cases o url m with ⟨path, hhit, hfind⟩ | ⟨hmiss, hstat, hfind⟩ | ⟨hmiss, hstat, hfind⟩
  · rw [hfind]
    rw [h.cache] at hhit
    have hstep : DirStep dir (fun _ _ => True) s (i, .reported url path) _ := .cached due hhit
    refine .last hr hstep due h ?_
    intro path' hp
    rw [← Except.ok.inj hp]
  · rw [hfind]
    rw [h.cache] at hmiss
    rw [h.fs, h.targetPath] at hstat
    have hlook : DirStep dir (fun _ _ => True) s (i, .internal) _ := .missed due hmiss
    have hfound : DirStep dir (fun _ _ => True) (s.goto i (.looking url))
        (i, .reported url (dir.urlTarget url)) _ :=
      .found (s.goto_self i _) hstat
    apply Finishes.step
    rw [h.targetPath]
    have hlooking : Views dir (s.goto i (.looking url)) i m := h.goto rfl rfl h.fs
    refine .last (hr.next hlook) hfound (remember_idle _ _ _ _) hlooking.remember ?_
    intro path hp
    rw [← Except.ok.inj hp]
  · rw [hfind]
    rw [h.cache] at hmiss
    rw [h.fs, h.targetPath] at hstat
    have hlook : DirStep dir (fun _ _ => True) s (i, .internal) _ := .missed due hmiss
    have habsent : DirStep dir (fun _ _ => True) (s.goto i (.looking url)) (i, .internal) _ :=
      .absent (s.goto_self i _) hstat
    apply Finishes.step
    apply Finishes.step
    rw [SharedDir.goto_goto] at habsent
    exact download_finishes ((hr.next hlook).next habsent) (h.goto rfl rfl h.fs) (s.goto_self i _)

theorem Finishes.record {result : Except Exn Str} (op : AssetOp)
    (h : Finishes dir fs i url tr result m) : Finishes dir fs i url tr result (m.record op) := by
  obtain ⟨tr', t, hr, hidle, hview, hown, hreport⟩ := h
  exact ⟨tr', t, hr, hidle, ⟨hview.dir, hview.cache, hview.fs⟩, hown, hreport⟩

theorem makeAvailable_finishes (o : Outcomes) (url : Str)
    (hr : (dirInstances ι dir (fun _ _ => True) fs).Run tr s)
    (h : Views dir s i m) (due : (s.instances i).serving = .idle) :
    Finishes dir fs i url tr (m.makeAvailable o url).1 (m.makeAvailable o url).2 := by
  have hfind : Finishes dir fs i url tr (m.find o url).1 (m.find o url).2 :=
    find_finishes hr h due
  cases hres : (m.find o url).1 with
  | error e =>
    rw [makeAvailable_error hres]
    rw [hres] at hfind
    exact hfind
  | ok path =>
    rw [makeAvailable_ok hres]
    rw [hres] at hfind
    exact hfind.record _

end Acord
