import Mathlib.Logic.Function.Basic
import Mathlib.Data.List.Perm.Basic
import Acord.Lib.Transition

/-! Who owns the coroutine frame of a `sync_generator`: the variables of a program as they are
constructed, moved from and to, used and destroyed. -/

namespace Acord
open Transition

inductive OwnerOp (ι : Type)
  | create (x : ι)
  | createThrows
  | moveCtor (x other : ι)
  | moveAssign (x other : ι)
  | destruct (x : ι)
  | use (x : ι)

/-- `handle x` is `m_handle` of the generator at `x`, if there is one, null once it was moved from.
The frames are numbered as they are created; `destroyed` are those that were destroyed. -/
structure Owners (ι : Type) where
  handle : ι → Option (Option Nat)
  live : Nat → Bool
  created : Nat
  destroyed : List Nat

namespace Owners
variable {ι : Type} [DecidableEq ι]

def empty (ι : Type) : Owners ι := ⟨fun _ => none, fun _ => false, 0, []⟩

def setHandle (s : Owners ι) (x : ι) (h : Option (Option Nat)) : Owners ι :=
  { s with handle := Function.update s.handle x h }

def destroyHandle (s : Owners ι) : Option Nat → Option (Owners ι)
  | none => some s
  | some f =>
    if s.live f then
      some { s with live := Function.update s.live f false, destroyed := s.destroyed ++ [f] }
    else none

def exchange (s : Owners ι) (other : ι) : Option (Option Nat × Owners ι) :=
  match s.handle other with
  | none => none
  | some h => some (h, s.setHandle other (some none))

def create (s : Owners ι) (x : ι) : Option (Owners ι) :=
  some ({ s with live := Function.update s.live s.created true, created := s.created + 1 }.setHandle
    x (some (some s.created)))

def moveCtor (s : Owners ι) (x other : ι) : Option (Owners ι) := do
  let (h, s) ← s.exchange other
  return s.setHandle x (some h)

def moveAssign (s : Owners ι) (x other : ι) : Option (Owners ι) := do
  let s ← s.destroyHandle (← s.handle x)
  let (h, s) ← s.exchange other
  return s.setHandle x (some h)

section
variable (safeDestroyHandle : Owners ι → Option Nat → Option (Owners ι))

def destruct (s : Owners ι) (x : ι) : Option (Owners ι) := do
  let s ← safeDestroyHandle s (← s.handle x)
  return s.setHandle x none

def createThrows (s : Owners ι) : Option (Owners ι) :=
  -- the coroutine throws before its first await: no variable gets the generator, which is
  -- destroyed with its frame suspended for the last time
  safeDestroyHandle
    { s with live := Function.update s.live s.created true, created := s.created + 1 }
    (some s.created)

end

def use (s : Owners ι) (x : ι) : Option (Owners ι) :=
  -- `size()`, `done()` and `get_next_chunk()` go through the handle
  match s.handle x with
  | some (some f) => if s.live f then some s else none
  | _ => none

def apply (safeDestroyHandle : Owners ι → Option Nat → Option (Owners ι)) (s : Owners ι) :
    OwnerOp ι → Option (Owners ι)
  | .create x => s.create x
  | .createThrows => s.createThrows safeDestroyHandle
  | .moveCtor x other => s.moveCtor x other
  | .moveAssign x other => s.moveAssign x other
  | .destruct x => s.destruct safeDestroyHandle x
  | .use x => s.use x

def Lives (s : Owners ι) : OwnerOp ι → Prop
  -- the rules of the language on lifetimes, and that no generator that was moved from is used
  | .create x => s.handle x = none
  | .createThrows => True
  | .moveCtor x other => s.handle x = none ∧ s.handle other ≠ none
  | .moveAssign x other => s.handle x ≠ none ∧ s.handle other ≠ none
  | .destruct x => s.handle x ≠ none
  | .use x => ∃ f, s.handle x = some (some f)

def NotSelf (s : Owners ι) : OwnerOp ι → Prop
  | .moveAssign x other => x = other → s.handle x = some none
  | _ => True

end Owners

/-- What `astl::eager_coro_helper::safe_destroy_handle` promises: nothing is done about a null
handle, and a frame that is live is destroyed. -/
structure SafeDestroys {ι : Type} (safeDestroyHandle : Owners ι → Option Nat → Option (Owners ι)) :
    Prop where
  null : ∀ s, safeDestroyHandle s none = some s
  frame : ∀ s f, s.live f = true → safeDestroyHandle s (some f) = s.destroyHandle (some f)

def owners (ι : Type) [DecidableEq ι]
    (safeDestroyHandle : Owners ι → Option Nat → Option (Owners ι)) :
    System (Owners ι) (OwnerOp ι) where
  init s := s = .empty ι
  step s op t := s.Lives op ∧ s.apply safeDestroyHandle op = some t

structure Owned {ι : Type} (s : Owners ι) : Prop where
  held : ∀ x f, s.handle x = some (some f) → s.live f = true
  one : ∀ x y f, s.handle x = some (some f) → s.handle y = some (some f) → x = y
  owner : ∀ f, s.live f = true → ∃ x, s.handle x = some (some f)
  ledger : ∀ f, f < s.created ↔ s.live f = true ∨ f ∈ s.destroyed
  once : s.destroyed.Nodup ∧ ∀ f ∈ s.destroyed, s.live f = false

variable {ι : Type} [DecidableEq ι] {s t : Owners ι} {x y : ι} {op : OwnerOp ι}
  {safeDestroyHandle : Owners ι → Option Nat → Option (Owners ι)}

abbrev Owners.Holds {ι : Type} (s : Owners ι) (x : ι) (f : Nat) : Prop := s.handle x = some (some f)

omit [DecidableEq ι] in
theorem Owned.fresh (h : Owned s) : s.live s.created = false ∧ s.created ∉ s.destroyed := by
  have hnot := mt (h.ledger s.created).mpr (Nat.lt_irrefl _)
  exact ⟨by simpa using fun hl => hnot (.inl hl), fun hd => hnot (.inr hd)⟩

omit [DecidableEq ι] in
theorem Owned.passed (h : Owned s) {m : ι → ι}
    (hlive : t.live = s.live) (hcreated : t.created = s.created)
    (hdestroyed : t.destroyed = s.destroyed)
    (hto : ∀ z f, s.Holds z f → t.Holds (m z) f)
    (hfrom : ∀ z f, t.Holds z f → ∃ z', m z' = z ∧ s.Holds z' f) : Owned t where
  held z f hz := by
  -- what was held is held by someone else, and nothing more: no frame comes or goes
    obtain ⟨z', _, hz'⟩ := hfrom z f hz
    exact hlive ▸ h.held z' f hz'
  one z w f hz hw := by
    obtain ⟨z', rfl, hz'⟩ := hfrom z f hz
    obtain ⟨w', rfl, hw'⟩ := hfrom w f hw
    exact congrArg m (h.one z' w' f hz' hw')
  owner f hf := by
    obtain ⟨z, hz⟩ := h.owner f (hlive ▸ hf)
    exact ⟨m z, hto z f hz⟩
  ledger f := by
    rw [hcreated, hlive, hdestroyed]
    exact h.ledger f
  once := by
    rw [hdestroyed, hlive]
    exact h.once

theorem Owned.released (h : Owned s) {k : Option Nat} (hx : s.handle x = some k)
    {v : Option (Option Nat)} (hv : ∀ f, v ≠ some (some f)) :
    ∃ u, s.destroyHandle k = some u ∧ u.handle = s.handle ∧ Owned (u.setHandle x v) := by
  cases k with
  | none =>
    refine ⟨s, rfl, rfl, h.passed (m := id) rfl rfl rfl ?_ ?_⟩
    · intro z f hz
      have hne : z ≠ x := by
        rintro rfl
        cases hx.symm.trans hz
      exact (Function.update_of_ne hne _ _).trans hz
    · intro z f hz
      by_cases hzx : z = x
      · subst hzx
        exact absurd ((Function.update_self _ _ _).symm.trans hz) (hv f)
      · exact ⟨z, rfl, (Function.update_of_ne hzx _ _).symm.trans hz⟩
  | some f =>
    have hlive := h.held x f hx
    have hnew : f ∉ s.destroyed := fun hd => by simp [h.once.2 f hd] at hlive
    refine ⟨{ s with live := Function.update s.live f false, destroyed := s.destroyed ++ [f] },
      if_pos hlive, rfl, ?_⟩
    have hkeep : ∀ z g, (Function.update s.handle x v) z = some (some g) →
        s.Holds z g ∧ g ≠ f := by
      intro z g hz
      by_cases hzx : z = x
      · subst hzx
        exact absurd ((Function.update_self _ _ _).symm.trans hz) (hv g)
      · have hold : s.Holds z g := (Function.update_of_ne hzx _ _).symm.trans hz
        exact ⟨hold, fun he => hzx (h.one z x f (he ▸ hold) hx)⟩
    refine ⟨fun z g hz => ?_, fun z w g hz hw => ?_, fun g hg => ?_, fun g => ?_, ?_, fun g hg => ?_⟩
    · obtain ⟨hold, hne⟩ := hkeep z g hz
      exact (Function.update_of_ne hne _ _).trans (h.held z g hold)
    · exact h.one z w g (hkeep z g hz).1 (hkeep w g hw).1
    · have hne : g ≠ f := fun he => by simp [Owners.setHandle, he] at hg
      obtain ⟨z, hz⟩ := h.owner g ((Function.update_of_ne hne _ _).symm.trans hg)
      have hzx : z ≠ x := fun he => hne (by simpa [he, hx] using hz.symm)
      exact ⟨z, (Function.update_of_ne hzx _ _).trans hz⟩
    · have hled := h.ledger g
      by_cases hgf : g = f
      · subst hgf
        simp [Owners.setHandle, hled, hlive]
      · simp [Owners.setHandle, hled, hgf]
    · show (s.destroyed ++ [f]).Nodup
      exact List.nodup_append.mpr ⟨h.once.1, by simp, fun a ha b hb =>
        fun he => hnew (List.mem_singleton.mp hb ▸ he ▸ ha)⟩
    · rcases List.mem_append.mp hg with hg | hg
      · have hne : g ≠ f := fun he => hnew (he ▸ hg)
        exact (Function.update_of_ne hne _ _).trans (h.once.2 g hg)
      · rw [List.mem_singleton.mp hg]
        exact Function.update_self _ _ _

theorem Owned.exchanged {h : Option Nat} (hi : Owned s) (hy : s.handle y = some h)
    (hx : ∀ f, ¬ s.Holds x f) (hxy : x ≠ y) :
    Owned ((s.setHandle y (some none)).setHandle x (some h)) := by
  have hupd : ∀ z, z ≠ x → z ≠ y → (Function.update (Function.update s.handle y (some none)) x
      (some h)) z = s.handle z := by
    intro z hzx hzy
    rw [Function.update_of_ne hzx, Function.update_of_ne hzy]
  have hthere : (Function.update (Function.update s.handle y (some none)) x (some h)) y =
      some none := by
    rw [Function.update_of_ne hxy.symm, Function.update_self]
  refine hi.passed (m := fun z => if z = y then x else z) rfl rfl rfl ?_ ?_
  · intro z f hz
    by_cases hzy : z = y
    · subst hzy
      rw [if_pos rfl]
      exact (Function.update_self _ _ _).trans (hy.symm.trans hz)
    · have hzx : z ≠ x := fun he => hx f (he ▸ hz)
      rw [if_neg hzy]
      exact (hupd z hzx hzy).trans hz
  · intro z f hz
    by_cases hzx : z = x
    · subst hzx
      have hself : (Function.update (Function.update s.handle y (some none)) z (some h)) z =
          some h := Function.update_self _ _ _
      exact ⟨y, if_pos rfl, hy.trans (hself.symm.trans hz)⟩
    · have hzy : z ≠ y := by
        rintro rfl
        cases hthere.symm.trans hz
      exact ⟨z, if_neg hzy, (hupd z hzx hzy).symm.trans hz⟩

theorem Owned.created (h : Owned s) (hx : s.handle x = none) :
    ∃ t, s.create x = some t ∧ Owned t := by
  obtain ⟨hdead, hnew⟩ := h.fresh
  refine ⟨_, rfl, ?_⟩
  have hlive : ∀ f, f ≠ s.created → Function.update s.live s.created true f = s.live f :=
    fun f hf => Function.update_of_ne hf _ _
  have hold : ∀ z f, (Function.update s.handle x (some (some s.created))) z = some (some f) →
      (z = x ∧ f = s.created) ∨ s.Holds z f := by
    intro z f hz
    by_cases hzx : z = x
    · subst hzx
      rw [Function.update_self] at hz
      exact .inl ⟨rfl, (Option.some.inj (Option.some.inj hz)).symm⟩
    · exact .inr ((Function.update_of_ne hzx _ _).symm.trans hz)
  have hheld : ∀ z, ¬ s.Holds z s.created := by
    intro z hz
    rw [h.held z _ hz] at hdead
    cases hdead
  refine ⟨fun z f hz => ?_, fun z w f hz hw => ?_, fun f hf => ?_, fun f => ?_, h.once.1,
    fun f hf => ?_⟩
  · rcases hold z f hz with ⟨_, rfl⟩ | hz
    · exact Function.update_self _ _ _
    · exact (hlive f fun he => hheld z (he ▸ hz)).trans (h.held z f hz)
  · rcases hold z f hz with ⟨rfl, rfl⟩ | hz'
    · rcases hold w _ hw with ⟨rfl, _⟩ | hw'
      · rfl
      · exact absurd hw' (hheld w)
    · rcases hold w f hw with ⟨_, he⟩ | hw'
      · exact absurd (he ▸ hz') (hheld z)
      · exact h.one z w f hz' hw'
  · by_cases hf' : f = s.created
    · subst hf'
      exact ⟨x, Function.update_self _ _ _⟩
    · obtain ⟨z, hz⟩ := h.owner f ((hlive f hf').symm.trans hf)
      have hzx : z ≠ x := by
        rintro rfl
        cases hx.symm.trans hz
      exact ⟨z, (Function.update_of_ne hzx _ _).trans hz⟩
  · have hled := h.ledger f
    show f < s.created + 1 ↔ Function.update s.live s.created true f = true ∨ f ∈ s.destroyed
    by_cases hf' : f = s.created
    · subst hf'
      simp
    · rw [hlive f hf', ← hled]
      omega
  · exact (hlive f fun he => hnew (he ▸ hf)).trans (h.once.2 f hf)

omit [DecidableEq ι] in
theorem Owned.createdThrows (hsafe : SafeDestroys safeDestroyHandle) (h : Owned s) :
    ∃ t, s.createThrows safeDestroyHandle = some t ∧ Owned t := by
  obtain ⟨hdead, hnew⟩ := h.fresh
  have hlive : Function.update (Function.update s.live s.created true) s.created false = s.live := by
    rw [Function.update_idem, ← hdead, Function.update_eq_self]
  refine ⟨{ s with created := s.created + 1, destroyed := s.destroyed ++ [s.created] }, ?_, ?_⟩
  · simp [Owners.createThrows, hsafe.frame, Owners.destroyHandle, hlive]
  · refine ⟨h.held, h.one, h.owner, fun f => ?_, ?_, fun f hf => ?_⟩
    · have hled := h.ledger f
      show f < s.created + 1 ↔ s.live f = true ∨ f ∈ s.destroyed ++ [s.created]
      rw [List.mem_append, List.mem_singleton, ← or_assoc, ← hled]
      omega
    · show (s.destroyed ++ [s.created]).Nodup
      exact List.nodup_append.mpr ⟨h.once.1, by simp, fun a ha b hb =>
        fun he => hnew (List.mem_singleton.mp hb ▸ he ▸ ha)⟩
    · rcases List.mem_append.mp hf with hf | hf
      · exact h.once.2 f hf
      · exact List.mem_singleton.mp hf ▸ hdead

theorem Owned.applied (hsafe : SafeDestroys safeDestroyHandle) (h : Owned s) (hop : s.Lives op)
    (hself : s.NotSelf op) : ∃ t, s.apply safeDestroyHandle op = some t ∧ Owned t := by
  cases op with
  | create x => exact h.created hop
  | createThrows => exact h.createdThrows hsafe
  | moveCtor x y =>
    obtain ⟨hx, hy⟩ := hop
    obtain ⟨k, hk⟩ := Option.ne_none_iff_exists'.mp hy
    have hxy : x ≠ y := by
      rintro rfl
      exact hy hx
    refine ⟨_, ?_, h.exchanged hk (fun f hf => by cases hx.symm.trans hf) hxy⟩
    simp [Owners.apply, Owners.moveCtor, Owners.exchange, hk]
  | moveAssign x y =>
    obtain ⟨hx, hy⟩ := hop
    obtain ⟨j, hj⟩ := Option.ne_none_iff_exists'.mp hx
    obtain ⟨k, hk⟩ := Option.ne_none_iff_exists'.mp hy
    by_cases hxy : x = y
    · obtain rfl := hxy
      have hx : s.handle x = some none := hself rfl
      obtain rfl : j = none := Option.some.inj (hj.symm.trans hx)
      obtain rfl : k = none := Option.some.inj (hk.symm.trans hx)
      have hsame : s.setHandle x (some none) = s := by
        rw [← hx]
        exact congrArg (fun u => { s with handle := u }) (Function.update_eq_self x s.handle)
      refine ⟨s, ?_, h⟩
      simp [Owners.apply, Owners.moveAssign, Owners.destroyHandle, Owners.exchange, hx, hsame]
    · -- as if `x` were moved from before it takes over the handle of `y`
      obtain ⟨u, hu, hhandle, howned⟩ := h.released hj (v := some none) (by simp)
      have hfree : ∀ f, ¬ (u.setHandle x (some none)).Holds x f := by
        intro f hf
        cases (Function.update_self _ _ _).symm.trans hf
      have hy' : (u.setHandle x (some none)).handle y = some k := by
        rw [← hk, ← hhandle]
        exact Function.update_of_ne (Ne.symm hxy) _ _
      refine ⟨_, ?_, howned.exchanged hy' hfree hxy⟩
      simp [Owners.apply, Owners.moveAssign, Owners.exchange, hj, hu, hhandle, hk, Owners.setHandle,
        Function.update_comm hxy, Function.update_idem]
  | destruct x =>
    obtain ⟨k, hk⟩ := Option.ne_none_iff_exists'.mp (hop : s.handle x ≠ none)
    obtain ⟨u, hu, _, howned⟩ := h.released hk (v := none) (by simp)
    have hsafely : safeDestroyHandle s k = some u := by
      cases k with
      | none => exact (hsafe.null s).trans hu
      | some f => exact (hsafe.frame s f (h.held x f hk)).trans hu
    exact ⟨_, by simp [Owners.apply, Owners.destruct, hk, hsafely], howned⟩
  | use x =>
    obtain ⟨f, hf⟩ := hop
    exact ⟨s, by simp [Owners.apply, Owners.use, hf, h.held x f hf], h⟩

omit [DecidableEq ι] in
theorem Owned.drained (h : Owned s) (hnone : ∀ x f, ¬ s.Holds x f) :
    s.destroyed.Perm (List.range s.created) := by
  rw [List.perm_ext_iff_of_nodup h.once.1 List.nodup_range]
  intro f
  have hdead : s.live f ≠ true := by
    intro hl
    obtain ⟨x, hx⟩ := h.owner f hl
    exact hnone x f hx
  rw [List.mem_range, h.ledger f]
  exact ⟨.inr, fun hf => hf.resolve_left hdead⟩

omit [DecidableEq ι] in
theorem Owned.one_owner (h : Owned s) {f : Nat} (hf : f < s.created) :
    Xor (∃! x, s.Holds x f) (f ∈ s.destroyed) := by
  rcases (h.ledger f).mp hf with hl | hd
  · obtain ⟨x, hx⟩ := h.owner f hl
    refine .inl ⟨⟨x, hx, fun y hy => h.one y x f hy hx⟩, fun hd => ?_⟩
    rw [h.once.2 f hd] at hl
    cases hl
  · refine .inr ⟨hd, ?_⟩
    rintro ⟨x, hx, _⟩
    have hl := h.held x f hx
    rw [h.once.2 f hd] at hl
    cases hl

theorem Owned.dangles (h : Owned s) {f : Nat} (hx : s.Holds x f) :
    ∃ t, s.moveAssign x x = some t ∧ t.Holds x f ∧ t.live f = false := by
  -- the check `this != &other` is missing: the frame is destroyed, and the handle comes back
  refine ⟨({ s with
    live := Function.update s.live f false, destroyed := s.destroyed ++ [f] }.setHandle x
      (some none)).setHandle x (some (some f)), ?_, Function.update_self _ _ _,
      Function.update_self _ _ _⟩
  have hlive := h.held x f hx
  have hx' : s.handle x = some (some f) := hx
  simp [Owners.moveAssign, Owners.destroyHandle, Owners.exchange, hx', hlive]

theorem owners_owned {tr : List (OwnerOp ι)} (hsafe : SafeDestroys safeDestroyHandle)
    (h : ((owners ι safeDestroyHandle).guard Owners.NotSelf).Run tr s) : Owned s := by
  refine h.invariant (fun s hs => ?_) fun s op t hs hstep => ?_
  · obtain rfl := hs
    refine ⟨?_, ?_, ?_, ?_, ?_⟩ <;> simp [Owners.empty]
  · obtain ⟨hself, hlives, happly⟩ := hstep
    obtain ⟨t', ht', howned⟩ := hs.applied hsafe hlives hself
    obtain rfl : t = t' := Option.some.inj (happly.symm.trans ht')
    exact howned

/-- In every run of a program that assigns no generator that holds a frame to itself: every frame
that was created has one owner or was destroyed, once, and no operation goes wrong; a generator that
is assigned to itself is left with a frame that is gone. -/
theorem frames_destroyed_once {tr : List (OwnerOp ι)} (hsafe : SafeDestroys safeDestroyHandle)
    (hrun : ((owners ι safeDestroyHandle).guard Owners.NotSelf).Run tr s) :
    (∀ f < s.created, Xor (∃! x, s.Holds x f) (f ∈ s.destroyed)) ∧ s.destroyed.Nodup ∧
      ((∀ x f, ¬ s.Holds x f) → s.destroyed.Perm (List.range s.created)) ∧
      (∀ op, s.Lives op → s.NotSelf op → ∃ t, s.apply safeDestroyHandle op = some t) ∧
      ∀ x f, s.Holds x f → ∃ t, s.apply safeDestroyHandle (.moveAssign x x) = some t ∧
        t.apply safeDestroyHandle (.use x) = none ∧
        ∀ y, t.apply safeDestroyHandle (.moveAssign x y) = none := by
  have h := owners_owned hsafe hrun
  refine ⟨fun f => h.one_owner, h.once.1, h.drained, fun op hop hself => ?_, fun x f hx => ?_⟩
  · obtain ⟨t, ht, _⟩ := h.applied hsafe hop hself
    exact ⟨t, ht⟩
  · obtain ⟨t, ht, hback, hdead⟩ := h.dangles hx
    have hback' : t.handle x = some (some f) := hback
    refine ⟨t, ht, ?_, fun y => ?_⟩
    · simp [Owners.apply, Owners.use, hback', hdead]
    · simp [Owners.apply, Owners.moveAssign, Owners.destroyHandle, hback', hdead]

def handedOver : List (OwnerOp Bool) :=
  [.createThrows, .create true, .create false, .moveAssign true false, .use true, .destruct false,
    .destruct true]

theorem destroyHandle_safe (ι : Type) :
    SafeDestroys (Owners.destroyHandle : Owners ι → Option Nat → Option (Owners ι)) :=
  ⟨fun _ => rfl, fun _ _ _ => rfl⟩

theorem frames_destroyed_once_three :
    ∃ s, ((owners Bool Owners.destroyHandle).guard Owners.NotSelf).Run handedOver s ∧
      s.created = 3 ∧ s.destroyed.Perm (List.range 3) := by
  have hstart : ((owners Bool Owners.destroyHandle).guard Owners.NotSelf).Run [] (.empty Bool) :=
    .start rfl
  have hthrown := hstart.next (a := OwnerOp.createThrows) ⟨trivial, trivial, rfl⟩
  have hfirst := hthrown.next (a := OwnerOp.create true) ⟨trivial, rfl, rfl⟩
  have hsecond := hfirst.next (a := OwnerOp.create false) ⟨trivial, rfl, rfl⟩
  have hmoved := hsecond.next (a := OwnerOp.moveAssign true false)
    ⟨by simp [Owners.NotSelf], by simp [Owners.Lives, Owners.setHandle], rfl⟩
  have hused := hmoved.next (a := OwnerOp.use true) ⟨trivial, ⟨2, rfl⟩, rfl⟩
  have hgone := hused.next (a := OwnerOp.destruct false)
    ⟨trivial, by simp [Owners.Lives, Owners.setHandle], rfl⟩
  have hrun := hgone.next (a := OwnerOp.destruct true)
    ⟨trivial, by simp [Owners.Lives, Owners.setHandle], rfl⟩
  refine ⟨_, hrun, rfl, (frames_destroyed_once (destroyHandle_safe Bool) hrun).2.2.1 ?_⟩
  intro x f hx
  cases x <;> cases hx

end Acord
