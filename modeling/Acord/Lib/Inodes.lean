import Mathlib.Logic.Function.Basic
import Mathlib.Tactic.Common

/-! Names over inodes: a file is kept by the inode it was opened as, whatever becomes of its name.
No inode has two names. -/

namespace Inodes

universe u v

inductive Ino (K : Type u)
  | initial (k : K)
  | fresh (n : Nat)
  deriving DecidableEq

structure Disk (K : Type u) (N : Type v) where
  names : K → Option (Ino K)
  nodes : Ino K → N
  next : Nat
  known : ∀ k n, names k = some (.fresh n) → n < next
  single : ∀ k l i, names k = some i → names l = some i → k = l

namespace Disk
variable {K : Type u} {N : Type v}

def view (d : Disk K N) (k : K) : Option N := (d.names k).map d.nodes

def ofView (default : N) (v : K → Option N) : Disk K N where
  names k := (v k).map fun _ => .initial k
  nodes
    | .initial k => (v k).getD default
    | .fresh _ => default
  next := 0
  known k n h := by
    simp at h
  single k l i hk hl := by
    simp only [Option.map_eq_some_iff] at hk hl
    obtain ⟨_, _, rfl⟩ := hk
    obtain ⟨_, _, h⟩ := hl
    exact (Ino.initial.inj h).symm

theorem view_ofView (default : N) (v : K → Option N) : (ofView default v).view = v := by
  funext k
  unfold view ofView
  cases h : v k with
  | none => simp [h]
  | some n => simp [h]

theorem fresh_unnamed (d : Disk K N) (k : K) : d.names k ≠ some (.fresh d.next) :=
  fun h => Nat.lt_irrefl _ (d.known k d.next h)

variable {d d' d'' : Disk K N} {k l src tgt : K} {i : Ino K} {n : N}

structure SameAt (k : K) (d d' : Disk K N) : Prop where
  name : d'.names k = d.names k
  node : ∀ i, d.names k = some i → d'.nodes i = d.nodes i

namespace SameAt

theorem refl (k : K) (d : Disk K N) : SameAt k d d := ⟨rfl, fun _ _ => rfl⟩

theorem trans (h : SameAt k d d') (h' : SameAt k d' d'') : SameAt k d d'' where
  name := h'.name.trans h.name
  node i hi := (h'.node i (h.name.trans hi)).trans (h.node i hi)

theorem view (h : SameAt k d d') : d'.view k = d.view k := by
  unfold Disk.view
  rw [h.name]
  cases hi : d.names k with
  | none => rfl
  | some i => exact congrArg some (h.node i hi)

end SameAt

variable [DecidableEq K]

def setNode (d : Disk K N) (i : Ino K) (n : N) : Disk K N :=
  { d with nodes := Function.update d.nodes i n }

def create (d : Disk K N) (k : K) (n : N) : Disk K N where
  -- a new inode under the name `k`
  names := Function.update d.names k (some (.fresh d.next))
  nodes := Function.update d.nodes (.fresh d.next) n
  next := d.next + 1
  known l m h := by
    rcases eq_or_ne l k with rfl | hl
    · rw [Function.update_self] at h
      have hm := Ino.fresh.inj (Option.some.inj h)
      omega
    · rw [Function.update_of_ne hl] at h
      exact Nat.lt_succ_of_lt (d.known l m h)
  single a b i ha hb := by
    rcases eq_or_ne a k with rfl | ha'
    · rw [Function.update_self] at ha
      by_contra hne
      rw [Function.update_of_ne (Ne.symm hne), ← ha] at hb
      exact d.fresh_unnamed b hb
    · rw [Function.update_of_ne ha'] at ha
      rcases eq_or_ne b k with rfl | hb'
      · rw [Function.update_self] at hb
        rw [← hb] at ha
        exact absurd ha (d.fresh_unnamed a)
      · rw [Function.update_of_ne hb'] at hb
        exact d.single a b i ha hb

theorem renamed_cases {ν : Type*} {names : K → Option ν} {src tgt k : K} {i : ν}
    (h : Function.update (Function.update names src none) tgt (names src) k = some i) :
    (k = tgt ∧ names src = some i) ∨ (k ≠ tgt ∧ k ≠ src ∧ names k = some i) := by
  rcases eq_or_ne k tgt with rfl | hk
  · rw [Function.update_self] at h
    exact .inl ⟨rfl, h⟩
  · rw [Function.update_of_ne hk] at h
    rcases eq_or_ne k src with rfl | hk'
    · rw [Function.update_self] at h
      cases h
    · rw [Function.update_of_ne hk'] at h
      exact .inr ⟨hk, hk', h⟩

def rename (d : Disk K N) (src tgt : K) : Disk K N where
  names := Function.update (Function.update d.names src none) tgt (d.names src)
  nodes := d.nodes
  next := d.next
  known k n h := by
    rcases renamed_cases h with ⟨_, h⟩ | ⟨_, _, h⟩
    · exact d.known src n h
    · exact d.known k n h
  single k l i hk hl := by
    rcases renamed_cases hk with ⟨hk, hi⟩ | ⟨_, hsrc, hi⟩
    · rcases renamed_cases hl with ⟨hl, _⟩ | ⟨_, hsrc, hi'⟩
      · exact hk.trans hl.symm
      · exact absurd (d.single l src i hi' hi) hsrc
    · rcases renamed_cases hl with ⟨_, hi'⟩ | ⟨_, _, hi'⟩
      · exact absurd (d.single k src i hi hi') hsrc
      · exact d.single k l i hi hi'

namespace SameAt

theorem create (h : k ≠ l) (d : Disk K N) (n : N) : SameAt k d (d.create l n) where
  name := Function.update_of_ne h _ _
  node i hi := by
    apply Function.update_of_ne
    rintro rfl
    exact d.fresh_unnamed k hi

theorem setNode (h : d.names l = some i) (hk : k ≠ l) (n : N) : SameAt k d (d.setNode i n) where
  name := rfl
  node j hj := by
    apply Function.update_of_ne
    rintro rfl
    exact hk (d.single k l j hj h)

theorem rename (hsrc : k ≠ src) (htgt : k ≠ tgt) (d : Disk K N) :
    SameAt k d (d.rename src tgt) where
  name := (Function.update_of_ne htgt _ _).trans (Function.update_of_ne hsrc _ _)
  node _ _ := rfl

end SameAt

theorem view_create (d : Disk K N) (k : K) (n : N) :
    (d.create k n).view = Function.update d.view k (some n) := by
  funext l
  rcases eq_or_ne l k with rfl | hl
  · simp [view, create]
  · rw [Function.update_of_ne hl]
    exact (SameAt.create hl d n).view

theorem view_setNode (h : d.names k = some i) (n : N) :
    (d.setNode i n).view = Function.update d.view k (some n) := by
  funext l
  rcases eq_or_ne l k with rfl | hl
  · simp [view, setNode, h]
  · rw [Function.update_of_ne hl]
    exact (SameAt.setNode h hl n).view

theorem view_rename (d : Disk K N) (src tgt : K) : (d.rename src tgt).view =
    Function.update (Function.update d.view src none) tgt (d.view src) := by
  funext l
  rcases eq_or_ne l tgt with rfl | hl
  · simp [view, rename]
  · rw [Function.update_of_ne hl]
    rcases eq_or_ne l src with rfl | hl'
    · simp [view, rename, hl]
    · rw [Function.update_of_ne hl']
      exact (SameAt.rename hl' hl d).view

end Disk
end Inodes
