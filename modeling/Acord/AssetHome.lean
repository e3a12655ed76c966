import Acord.AssetConfined

/-! Where the asset directory is: what the environment makes of a path, and the constructor of the
asset manager service. -/

namespace Acord
open Ac Transition

structure Environ where
  getenv : Str → Option Str
  noNul : ∀ {var val}, getenv var = some val → 0 ∉ val

def Home_Var : Str := lit "HOME"

def notSet (var : Str) : Exn := .error (lit "Environment variable " ++ var ++ lit " not set")

namespace Fs

def expandPathInPlace (env : Environ) : Str → Except Exn Str
  | 0x7E :: rest =>
    match env.getenv Home_Var with
    | none => .error (notSet Home_Var)
    | some home => .ok (home ++ rest)
  | 0x24 :: rest =>
    let var := rest.takeWhile (· ≠ slash)
    match env.getenv (cStr var) with
    | none => .error (notSet var)
    | some val => .ok (val ++ rest.dropWhile (· ≠ slash))
  | path => .ok path

def expandPath (env : Environ) (path : Str) : Except Exn Str := expandPathInPlace env path

def upwards (path : Str) : List Str := List.iterate parentPath path (path.length + 1)

def mkdirError : Exn := .error (lit "filesystem error: cannot create directories")

/-- Up to the first that exists, and down again; `ok` says which the system lets be made. -/
def createUpwards (ok : Str → Bool) (fs : Fs) : List Str → Except Exn Unit × Fs
  | [] => (.ok (), fs)
  | path :: above =>
    match fs.lookup path with
    | some n => if n.directory then (.ok (), fs) else (.error mkdirError, fs)
    | none =>
      match createUpwards ok fs above with
      | (.error e, fs) => (.error e, fs)
      | (.ok (), fs) =>
        match createDirectories (ok path) fs path with
        | none => (.error mkdirError, fs)
        | some fs => (.ok (), fs)

def mkdir_p (ok : Str → Bool) (fs : Fs) (path : Str) : Except Exn Unit × Fs :=
  createUpwards ok fs (upwards path)

variable {env : Environ} {path p k : Str} {fs fs' : Fs} {ok : Str → Bool} {r : Except Exn Unit}

theorem expandPath_noNul (h : expandPath env path = .ok p) (hp : 0 ∉ path) : 0 ∉ p := by
  unfold expandPath expandPathInPlace at h
  split at h
  · split at h
    · cases h
    · next rest _ home hhome =>
      obtain rfl := Except.ok.inj h
      have hrest : 0 ∉ rest := fun hmem => hp (List.mem_cons_of_mem _ hmem)
      simp [env.noNul hhome, hrest]
  · dsimp only at h
    split at h
    · cases h
    · next rest _ val hval =>
      obtain rfl := Except.ok.inj h
      have hrest : 0 ∉ rest := fun hmem => hp (List.mem_cons_of_mem _ hmem)
      have hdrop : 0 ∉ rest.dropWhile (· ≠ slash) :=
        fun hmem => hrest ((List.dropWhile_suffix _).subset hmem)
      rw [List.mem_append, not_or]
      exact ⟨env.noNul hval, hdrop⟩
  · obtain rfl := Except.ok.inj h
    exact hp

theorem parentPath_isPrefix (path : Str) : parentPath path <+: path := by
  have hdir := List.rdropWhile_prefix (· ≠ slash) path
  unfold parentPath
  dsimp only
  split
  · exact (List.take_prefix 1 _).trans hdir
  · exact (List.rdropWhile_prefix _ _).trans hdir

theorem upwards_isPrefix (h : p ∈ upwards path) : p <+: path := by
  unfold upwards at h
  generalize path.length + 1 = n at h
  have hgen : ∀ n (q : Str), q <+: path → p ∈ List.iterate parentPath q n → p <+: path := by
    intro n
    induction n with
    | zero => exact fun _ _ hmem => by cases hmem
    | succ n ih =>
      intro q hq hmem
      rcases List.mem_cons.mp hmem with rfl | hmem
      · exact hq
      · exact ih _ ((parentPath_isPrefix q).trans hq) hmem
  exact hgen n path (List.prefix_refl path) h

def Made (dirs : List Str) (fs fs' : Fs) : Prop :=
  ∀ k, fs' k ≠ fs k → k ∈ dirs.map cStr ∧ fs k = none ∧ fs' k = some newDir

theorem createDirectories_made {b : Bool} (h : createDirectories b fs p = some fs') :
    Made [p] fs fs' := by
  intro k hk
  rcases createDirectories_spec h with ⟨_, _, _, rfl⟩ | ⟨hnone, rfl⟩
  · exact absurd rfl hk
  · have hkp : k = cStr p := by
      by_contra hne
      exact hk (put_other hne)
    subst hkp
    refine ⟨List.mem_singleton_self _, ?_, put_same fs p _⟩
    unfold lookup at hnone
    split at hnone
    · cases hnone
    · exact hnone

theorem Made.mono {dirs dirs' : List Str} (h : Made dirs fs fs') (hsub : dirs ⊆ dirs') :
    Made dirs' fs fs' := fun k hk => ⟨List.map_subset cStr hsub (h k hk).1, (h k hk).2⟩

theorem Made.trans {dirs : List Str} {fs₁ : Fs} (h : Made dirs fs fs₁) (h' : Made dirs fs₁ fs') :
    Made dirs fs fs' := by
  intro k hk
  by_cases hlast : fs' k = fs₁ k
  · obtain ⟨hmem, hnone, hdir⟩ := h k (hlast ▸ hk)
    exact ⟨hmem, hnone, hlast.trans hdir⟩
  · obtain ⟨hmem, hnone, hdir⟩ := h' k hlast
    refine ⟨hmem, ?_, hdir⟩
    by_contra hsome
    have hsame : fs₁ k ≠ fs k := fun he => hsome (he ▸ hnone)
    cases (h k hsame).2.2.symm.trans hnone

theorem made_refl (dirs : List Str) (fs : Fs) : Made dirs fs fs := fun _ hk => absurd rfl hk

theorem newDir_directory : newDir.directory = true := by decide

theorem lookup_made {b : Bool} (h : createDirectories b fs p = some fs') :
    ∃ n, fs'.lookup p = some n ∧ n.directory = true := by
  rcases createDirectories_spec h with ⟨n, hn, hdir, rfl⟩ | ⟨hnone, rfl⟩
  · exact ⟨n, hn, hdir⟩
  · have hname : getFileName (cStr p) ∉ dirNames := by
      intro hmem
      unfold lookup at hnone
      rw [if_pos hmem] at hnone
      cases hnone
    exact ⟨newDir, lookup_put hname _, newDir_directory⟩

theorem createUpwards_made {dirs : List Str} (h : createUpwards ok fs dirs = (r, fs')) :
    Made dirs fs fs' ∧ ∀ p above, dirs = p :: above → r = .ok () →
      ∃ n, fs'.lookup p = some n ∧ n.directory = true := by
  -- by induction on the way up: only missing directories are made, and once all are, the first
  -- path is one
  induction dirs generalizing r fs' with
  | nil =>
    obtain ⟨_, rfl⟩ := Prod.mk.inj h
    exact ⟨made_refl _ fs, fun _ _ hnil => by cases hnil⟩
  | cons path above ih =>
    unfold createUpwards at h
    cases hn : fs.lookup path with
    | some n =>
      simp only [hn] at h
      split at h
      · next hdir =>
        obtain ⟨_, rfl⟩ := Prod.mk.inj h
        refine ⟨made_refl _ fs, fun p rest hcons _ => ?_⟩
        obtain ⟨rfl, _⟩ := List.cons.inj hcons
        exact ⟨n, hn, hdir⟩
      · obtain ⟨rfl, rfl⟩ := Prod.mk.inj h
        exact ⟨made_refl _ fs, fun _ _ _ hr => by cases hr⟩
    | none =>
      simp only [hn] at h
      cases hup : createUpwards ok fs above with
      | mk r₁ fs₁ =>
        have habove : Made (path :: above) fs fs₁ :=
          (ih hup).1.mono (List.subset_cons_self path above)
        cases r₁ with
        | error e =>
          simp only [hup] at h
          obtain ⟨rfl, rfl⟩ := Prod.mk.inj h
          exact ⟨habove, fun _ _ _ hr => by cases hr⟩
        | ok v =>
          simp only [hup] at h
          cases hmade : createDirectories (ok path) fs₁ path with
          | none =>
            simp only [hmade] at h
            obtain ⟨rfl, rfl⟩ := Prod.mk.inj h
            exact ⟨habove, fun _ _ _ hr => by cases hr⟩
          | some fs₂ =>
            simp only [hmade] at h
            obtain ⟨_, rfl⟩ := Prod.mk.inj h
            have hlast : Made (path :: above) fs₁ fs₂ := (createDirectories_made hmade).mono (by simp)
            refine ⟨habove.trans hlast, fun p rest hcons _ => ?_⟩
            obtain ⟨rfl, _⟩ := List.cons.inj hcons
            exact lookup_made hmade

end Fs

section
variable {env : Environ} {ok : Str → Bool} {fs fs' : Fs} {path : Str}

def MadeOnWay (path : Str) (fs fs' : Fs) : Prop :=
  ∀ k, fs' k ≠ fs k → k <+: path ∧ fs k = none ∧ fs' k = some newDir

theorem mkdir_p_spec {r : Except Exn Unit} (hp : 0 ∉ path) (h : Fs.mkdir_p ok fs path = (r, fs')) :
    MadeOnWay path fs fs' ∧ (r = .ok () → ∃ n, fs'.lookup path = some n ∧ n.directory = true) := by
  obtain ⟨hmade, hdir⟩ := Fs.createUpwards_made h
  refine ⟨fun k hk => ?_, hdir path _ rfl⟩
  obtain ⟨hmem, hnone, hnew⟩ := hmade k hk
  obtain ⟨q, hq, rfl⟩ := List.mem_map.mp hmem
  have hway := Fs.upwards_isPrefix hq
  have hcut : cStr q = q := by
    simpa [cStr] using Fs.cStr_append [] fun h0 => hp (hway.subset h0)
  exact ⟨hcut.symm ▸ hway, hnone, hnew⟩

theorem mainAssets_noNul : 0 ∉ lit "~/.ac-assets" := by decide

def AssetMgr.start (env : Environ) (ok : Str → Bool) (fs : Fs) : Except Exn AssetMgr × Fs :=
  match h : Fs.expandPath env (lit "~/.ac-assets") with
  | .error e => (.error e, fs)
  | .ok path =>
    match Fs.mkdir_p ok fs path with
    | (.error e, fs) => (.error e, fs)
    | (.ok (), fs) => (.ok (.construct ⟨path, Fs.expandPath_noNul h mainAssets_noNul⟩ fs), fs)

def homeAssets (home : Str) : Str := home ++ lit "/.ac-assets"

theorem expandPath_mainAssets (env : Environ) :
    Fs.expandPath env (lit "~/.ac-assets") =
      match env.getenv Home_Var with
      | none => .error (notSet Home_Var)
      | some home => .ok (homeAssets home) := rfl

theorem start_cases (env : Environ) (ok : Str → Bool) (fs : Fs) :
    (env.getenv Home_Var = none ∧ AssetMgr.start env ok fs = (.error (notSet Home_Var), fs)) ∨
    ∃ home, env.getenv Home_Var = some home ∧ ∃ dir : AssetDir, dir.path = homeAssets home ∧
      ∃ r fs', Fs.mkdir_p ok fs dir.path = (r, fs') ∧
        ((∃ e, r = .error e ∧ AssetMgr.start env ok fs = (.error e, fs')) ∨
          r = .ok () ∧ AssetMgr.start env ok fs = (.ok (.construct dir fs'), fs')) := by
  have hexpand := expandPath_mainAssets env
  cases hhome : env.getenv Home_Var with
  | none =>
    rw [hhome] at hexpand
    refine .inl ⟨rfl, ?_⟩
    unfold AssetMgr.start
    split
    · next e he =>
      obtain rfl := Except.error.inj (he.symm.trans hexpand)
      rfl
    · next path hpath => cases hpath.symm.trans hexpand
  | some home =>
    rw [hhome] at hexpand
    have hnul := Fs.expandPath_noNul hexpand mainAssets_noNul
    cases hmk : Fs.mkdir_p ok fs (homeAssets home) with
    | mk r fs' =>
      refine .inr ⟨home, rfl, ⟨homeAssets home, hnul⟩, rfl, r, fs', hmk, ?_⟩
      unfold AssetMgr.start
      split
      · next e he => cases he.symm.trans hexpand
      · next path hpath =>
        obtain rfl := Except.ok.inj (hpath.symm.trans hexpand)
        rw [hmk]
        cases r with
        | error e => exact .inl ⟨e, rfl, rfl⟩
        | ok v => exact .inr ⟨rfl, rfl⟩

theorem not_inside_self (dir : AssetDir) : ¬ Inside dir dir.path := by
  have hlonger : ∀ x : Str, x ≠ [] → dir.path ≠ dir.path ++ x := by
    intro x hx he
    exact hx (List.self_eq_append_right.mp he)
  rintro (h | ⟨f, _, h | h⟩)
  · exact hlonger _ (by decide) h
  · unfold AssetDir.dlPath at h
    rw [List.append_assoc] at h
    exact hlonger _ (fun hnil => absurd (List.append_eq_nil_iff.mp hnil).1 (by decide)) h
  · unfold AssetDir.target at h
    rw [List.append_assoc] at h
    exact hlonger _ (fun hnil => absurd (List.append_eq_nil_iff.mp hnil).1 (by decide)) h

/-- What a service that was started with the environment `env` may do from then on. -/
theorem started_confined (env : Environ) (ok : Str → Bool) (fs : Fs) :
    (∀ e fs', AssetMgr.start env ok fs = (.error e, fs') →
      (env.getenv Home_Var = none ∧ e = notSet Home_Var ∧ fs' = fs) ∨
        ∃ home, env.getenv Home_Var = some home ∧ MadeOnWay (homeAssets home) fs fs') ∧
    ∀ mgr fs', AssetMgr.start env ok fs = (.ok mgr, fs') → ∃ home,
      env.getenv Home_Var = some home ∧ mgr.mainAssetDir.path = homeAssets home ∧
      ∀ (lib : FrameLib) tr sv, (assetService lib mgr.mainAssetDir mgr.fs).Run tr sv →
        (∀ k, sv.mgr.fs k ≠ fs k → Inside mgr.mainAssetDir k ∨
          k <+: homeAssets home ∧ fs k = none ∧ sv.mgr.fs k = some newDir) ∧
        (∃ n, sv.mgr.fs.lookup (homeAssets home) = some n ∧ n.directory = true) ∧
        ∀ i cmd reply, sv.sessions i = .replying cmd reply →
          RepliesWith (ReportedOrNone mgr.mainAssetDir) sv.mgr cmd reply := by
  rcases start_cases env ok fs with ⟨hnone, hstart⟩ | ⟨home, hhome, dir, hdir, r, fs₁, hmk, hend⟩
  · rw [hstart]
    refine ⟨fun e fs' h => ?_, fun mgr fs' h => by cases h⟩
    cases h
    exact .inl ⟨hnone, rfl, rfl⟩
  · obtain ⟨hway, hisDir⟩ := mkdir_p_spec dir.noNul hmk
    rcases hend with ⟨e, rfl, hstart⟩ | ⟨rfl, hstart⟩
    · rw [hstart]
      refine ⟨fun e fs' h => ?_, fun mgr fs' h => by cases h⟩
      cases h
      exact .inr ⟨home, hhome, hdir ▸ hway⟩
    · rw [hstart]
      refine ⟨fun e fs' h => (by cases h), fun mgr fs' h => ?_⟩
      cases h
      refine ⟨home, hhome, hdir, fun lib tr sv hrun => ?_⟩
      have hinv := (confinedRule dir (.construct dir fs₁) rfl).run
        ⟨.refl _, fun _ _ hcached => by cases hcached⟩ (hrun.guard_of polledWith_any)
      have hout : ∀ k, ¬ Inside dir k → sv.mgr.fs k = fs₁ k := by
        intro k hk
        by_contra hne
        exact hk (hinv.mgr.1.fs k hne)
      refine ⟨fun k hk => ?_, ?_, hinv.replies⟩
      · by_cases hin : Inside dir k
        · exact .inl hin
        · rw [hout k hin] at hk ⊢
          exact .inr (hdir ▸ hway k hk)
      · -- no call of the service works on the asset directory itself
        obtain ⟨n, hn, hd⟩ := hisDir rfl
        refine ⟨n, ?_, hd⟩
        rw [← hdir, ← hn]
        unfold Fs.lookup
        have hcut : cStr dir.path = dir.path := by
          simpa [cStr] using Fs.cStr_append [] dir.noNul
        rw [hcut, hout dir.path (not_inside_self dir)]

def homeOnly : Environ where
  getenv var := if var = Home_Var then some (lit "/h") else none
  noNul h := by
    obtain ⟨_, he⟩ := Option.ite_none_right_eq_some.mp h
    rw [← Option.some.inj he]
    decide

example : let fs := (AssetMgr.start homeOnly (fun _ => true) fun _ => none).2
    fs (lit "/h") = some newDir ∧ fs (lit "/h/.ac-assets") = some newDir ∧ fs [slash] = none := by
  decide

end
end Acord
