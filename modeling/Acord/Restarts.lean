import Acord.SharedRuns

/-! A service that is interrupted, killed and restarted at any point: its partial downloads stay
where they are. -/

namespace Acord
open Ac Transition Inodes

variable {dir : AssetDir} {serves : Str → List UInt8 → Prop} {fs : Fs} {s t : SharedDir Unit}
  {tr : List (Unit × DirEvent)} {e : Unit × DirEvent} {url : Str}

theorem undisturbed_alone (dir : AssetDir) (s : SharedDir Unit) (e : Unit × DirEvent) :
    Undisturbed dir s e := by
  obtain ⟨i, e⟩ := e
  cases e with
  | opened url => exact fun j _ hj _ => absurd (Subsingleton.elim j i) hj
  | _ => trivial

theorem intact_alone (h : (dirInstances Unit dir serves fs).Run tr s) : Intact dir serves fs s :=
  intact_run (h.guard_of (undisturbed_alone dir))

structure DoneBefore (tr : List (Unit × DirEvent)) (s : SharedDir Unit) : Prop where
  -- a file about to be renamed has just been closed, its generator done, and so had every file
  -- that was placed
  moving : ∀ url body, (s.instances ()).serving = .moving url body →
    ∃ tr', tr = tr' ++ [((), .done url body)]
  placed : ∀ k dl, s.placed k = some dl → ((), .done dl.url dl.body) ∈ tr

theorem DoneBefore.setInstance {d : FsDisk} {c : Instance} (h : DoneBefore tr s)
    (hc : ∀ url body, c.serving = .moving url body → e = ((), .done url body)) :
    DoneBefore (tr ++ [e]) ((s.setDisk d).setInstance () c) where
  moving url body hserving := by
    rw [SharedDir.setInstance_instances, if_pos rfl] at hserving
    rw [hc url body hserving]
    exact ⟨tr, rfl⟩
  placed k dl hdl := List.mem_append_left _ (h.placed k dl hdl)

theorem doneBefore_step (h : DoneBefore tr s) (hs : DirStep dir serves s e t) :
    DoneBefore (tr ++ [e]) t := by
  have hset : ∀ c : Instance, (∀ url body, c.serving ≠ .moving url body) →
      DoneBefore (tr ++ [e]) (s.setInstance () c) :=
    fun c hc => h.setInstance fun url body heq => absurd heq (hc url body)
  cases hs with
  | cached due hit =>
    refine ⟨fun url body hserving => ?_, fun k dl hdl => List.mem_append_left _ (h.placed k dl hdl)⟩
    rw [due] at hserving
    cases hserving
  | missed due miss => exact hset _ nofun
  | found due stat => exact hset _ nofun
  | absent due stat => exact hset _ nofun
  | touched due ok => exact h.setInstance nofun
  | touchFailed due err => exact h.setInstance nofun
  | opened due ofs => exact h.setInstance nofun
  | openFailed due ofs => exact hset _ nofun
  | started due gen => exact hset _ nofun
  | startFailed due => exact h.setInstance nofun
  | chunk due => exact hset _ nofun
  | flushed n due => exact h.setInstance nofun
  | threw due => exact h.setInstance nofun
  | done due =>
    refine h.setInstance fun url body heq => ?_
    obtain ⟨rfl, rfl⟩ := Serving.moving.inj heq
    rfl
  | @renamed i url body ok d due mv =>
    refine ⟨fun url' body' hserving => ?_, fun k dl hdl => List.mem_append_left _ ?_⟩
    · rw [SharedDir.goto_self] at hserving
      cases hserving
    · change (s.place (dir.urlTarget url) ⟨url, body⟩).placed k = some dl at hdl
      rw [SharedDir.place_placed] at hdl
      split at hdl
      · obtain rfl := Option.some.inj hdl
        obtain ⟨tr', rfl⟩ := h.moving url body due
        exact List.mem_append_right _ (List.mem_singleton_self _)
      · exact h.placed k dl hdl
  | renameFailed due mv => exact hset _ nofun
  | remembered due => exact hset _ nofun
  | killed => exact hset _ nofun

theorem doneBefore_run (h : (dirInstances Unit dir serves fs).Run tr s) : DoneBefore tr s := by
  apply h.trace_invariant
  · rintro s rfl
    exact ⟨fun _ _ h => (nomatch h), fun _ _ h => (nomatch h)⟩
  · intro tr s e t hi hs
    exact doneBefore_step hi hs

theorem step_scratch (h : Intact dir serves fs s) (hs : DirStep dir serves s e t)
    (hne : ∀ i url, e ≠ (i, .renamed url)) : Scratch dir s.disk.view t.disk.view := by
  have hgood : ∀ i p, (s.instances i).serving = p → p.Good dir serves fs s.disk s.placed :=
    fun i p due => due ▸ h.serving i
  cases hs with
  | touched due ok => exact (touch_aside _ _ _ _).scratch
  | touchFailed due err => exact (touch_aside _ _ _ _).scratch
  | opened due ofs => exact (ofstreamOpen_aside ofs).scratch
  | startFailed due =>
    have hheld : Held _ _ _ _ _ _ := hgood _ _ due
    exact (hheld.flush_aside _).scratch
  | flushed n due =>
    obtain ⟨_, got, _, hheld⟩ := hgood _ _ due
    exact (hheld.flush_aside n).scratch
  | threw due =>
    obtain ⟨_, got, _, hheld⟩ := hgood _ _ due
    exact (hheld.flush_aside _).scratch
  | done due =>
    obtain ⟨_, got, _, hheld⟩ := hgood _ _ due
    exact (hheld.flush_aside _).scratch
  | renamed due mv => exact absurd rfl (hne _ _)
  | _ => exact .refl _

theorem changed_by_rename (hi : Intact dir serves fs s) (hd : DoneBefore tr s)
    (hs : DirStep dir serves s e t) {f : Str} (hf : slash ∉ f)
    (hne : t.disk.view (dir.target f) ≠ s.disk.view (dir.target f)) :
    (∃ url body tr', e = ((), .renamed url) ∧ tr = tr' ++ [((), .done url body)] ∧
      dir.target f = cStr (dir.urlTarget url) ∧ FileAt dir fs t.disk (dir.target f) body) ∨
    (dir.target f = dir.dlDir ∧ s.disk.view (dir.target f) = none ∧
      t.disk.view (dir.target f) = some newDir) := by
  by_cases hren : ∃ url, e = ((), .renamed url)
  · left
    obtain ⟨url, rfl⟩ := hren
    cases hs with
    | @renamed i url body ok d due mv =>
      obtain ⟨tr', htr⟩ := hd.moving url body due
      have hkey : dir.target f = cStr (dir.urlTarget url) := by
        by_contra hother
        obtain rfl := FsDisk.mv_rename mv
        exact hne (rename_sameAt s.disk url hf hother).view
      refine ⟨url, body, tr', rfl, htr, hkey, ?_⟩
      apply ((hi.renamed due mv).placed _ ⟨url, body⟩ _).2.2
      show (s.place (dir.urlTarget url) ⟨url, body⟩).placed _ = _
      rw [SharedDir.place_placed, if_pos hkey]
  · have hscratch := step_scratch hi hs fun i url heq => hren ⟨url, heq⟩
    exact .inr ((scratch_target hscratch hf).resolve_left hne)

/-- Over any history of attempts, kills and restarts: a file in the directory changes only by the
rename that follows the end of its generator, an attempt starts from an empty file and adds nothing
but what it got, and what is reported is a whole download or was there from the start. -/
theorem interrupted_never_surface (h : (dirInstances Unit dir serves fs).Run tr s) :
    (∀ e t f, DirStep dir serves s e t → slash ∉ f →
      t.disk.view (dir.target f) ≠ s.disk.view (dir.target f) →
      (∃ url body tr', e = ((), .renamed url) ∧ tr = tr' ++ [((), .done url body)] ∧
        dir.target f = cStr (dir.urlTarget url) ∧ FileAt dir fs t.disk (dir.target f) body) ∨
      (dir.target f = dir.dlDir ∧ s.disk.view (dir.target f) = none ∧
        t.disk.view (dir.target f) = some newDir)) ∧
    (∀ url t, DirStep dir serves s ((), .opened url) t → FileAt dir fs t.disk (dir.dlKey url) []) ∧
    (∀ url ofs body rest, (s.instances ()).serving = .receiving url ofs body rest →
      ∃ got, body = got ++ rest ∧ Held dir fs s.disk url ofs got) ∧
    ∀ url path, ((), .reported url path) ∈ tr → path ≠ [] →
      (∃ dl, s.placed (cStr path) = some dl ∧ ((), .done dl.url dl.body) ∈ tr ∧
        FileAt dir fs s.disk (cStr path) dl.body) ∨
      ∃ n, fs (cStr path) = some n ∧ s.disk.view (cStr path) = some n := by
  have hi := intact_alone h
  have hd := doneBefore_run h
  refine ⟨fun e t f hs hf hne => changed_by_rename hi hd hs hf hne, fun url t hs => ?_,
    fun url ofs body rest due => ?_, fun url path hmem hne => ?_⟩
  · cases hs with
    | opened due ofs =>
      have hheld : Held dir fs _ url _ [] := ofstreamOpen_held hi.plain ofs
      obtain ⟨_, hdata, _⟩ := FsDisk.ofstreamOpen_spec ofs
      exact ⟨_, congrArg (Option.map _) hheld.name, hheld.written, hdata⟩
  · have hgood := hi.serving ()
    rw [due] at hgood
    exact hgood.2
  · have hrun := h.guard_of (undisturbed_alone dir)
    have hknown := (reported_run hrun () url path hmem).resolve_left hne
    rcases hi.namesFile hknown with ⟨dl, hdl⟩ | hinit
    · exact .inl ⟨dl, hdl, hd.placed _ dl hdl, (hi.placed _ dl hdl).2.2⟩
    · exact .inr hinit

theorem interrupted_never_surface_killed : ∃ (tr : List (Unit × DirEvent)) (s : SharedDir Unit),
    ((), .killed) ∈ tr ∧ ((), .reported (lit "h/m") (lit "/a/m")) ∈ tr ∧
    ∃ dl, s.placed (lit "/a/m") = some dl ∧ ((), .done dl.url dl.body) ∈ tr ∧
      FileAt smallDir (fun _ => none) s.disk (lit "/a/m") dl.body := by
  let P : SharedDir Unit → Unit × DirEvent → Prop := fun _ _ => True
  have hstart : ((dirInstances Unit smallDir (fun _ _ => True) fun _ => none).guard P).Run [] _ :=
    .start rfl
  have hopened := opening_run () (lit "h/m") (fun _ => trivial) hstart rfl rfl rfl rfl rfl trivial
  have hmoving := receiving_run [1, 2] (fun _ => trivial) hopened (SharedDir.goto_self _ _ _)
    trivial fun _ => trivial
  have hkilled := killed_run () hmoving trivial
  have hopened' := opening_run () (lit "h/m") (fun _ => trivial) hkilled rfl rfl rfl rfl rfl trivial
  have hmoving' := receiving_run [3] (fun _ => trivial) hopened' (SharedDir.goto_self _ _ _)
    trivial fun _ => trivial
  have hplaced := publishing_run hmoving' (SharedDir.goto_self _ _ _) rfl (fun _ => trivial)
    fun _ _ => trivial
  have h := interrupted_never_surface hplaced.of_guard
  have hwhole := h.2.2.2 (lit "h/m") (lit "/a/m")
    (List.mem_append_right _ (List.mem_singleton_self _)) (by decide)
  refine ⟨_, _, ?_, ?_, hwhole.resolve_right ?_⟩
  · simp
  · exact List.mem_append_right _ (List.mem_singleton_self _)
  · rintro ⟨n, hn, _⟩
    cases hn

end Acord
