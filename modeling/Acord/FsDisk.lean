import Acord.FsUtil
import Acord.Lib.Inodes

/-! The file system calls on files kept by inodes: an open file is written to where it was opened,
wherever it has been moved since. -/

namespace Acord
open Ac Inodes

abbrev FsDisk := Disk Str Node

namespace FsDisk

def lookup (d : FsDisk) (p : Str) : Option Node := Fs.lookup d.view p

def createDirectories (ok : Bool) (d : FsDisk) (path : Str) : Option FsDisk :=
  match ok, lookup d path with
  | true, none => some (d.create (cStr path) newDir)
  | true, some n => if n.directory then some d else none
  | false, _ => none

def fopenAppend (ok : Bool) (d : FsDisk) (path : Str) : Option FsDisk :=
  if ok && Fs.openable d.view path then
    some (if (lookup d path).isSome then d else d.create (cStr path) newFile)
  else none

def touch (mkdirOk fopenOk : Bool) (d : FsDisk) (path : Str) : Except Exn Unit × FsDisk :=
  let parent := Fs.parentPath path
  match if parent = [] then some d else createDirectories mkdirOk d parent with
  | none => (.error (.error (lit "filesystem error: cannot create directories")), d)
  | some d =>
    match fopenAppend fopenOk d path with
    | none => (.error (Fs.touchError path), d)
    | some d => (.ok (), d)

def ofstreamOpen (ok : Bool) (d : FsDisk) (path : Str) : Option (Ino Str × FsDisk) :=
  -- the constructor of `std::ofstream` opens an inode: the one that has the name, truncated
  if ok && Fs.openable d.view path then
    match d.names (cStr path) with
    | some i => some (i, d.setNode i { d.nodes i with data := [] })
    | none => some (.fresh d.next, d.create (cStr path) newFile)
  else none

def mv (ok : Bool) (d : FsDisk) (src tgt : Str) : Option FsDisk :=
  match Fs.mv ok d.view src tgt with
  | none => none
  | some _ => some (d.rename (cStr src) (cStr tgt))

end FsDisk

def Node.writeAt (n : Node) (offset : Nat) (bytes : List UInt8) : Node :=
  { n with data := n.data.take offset ++ List.replicate (offset - n.data.length) 0 ++ bytes ++
      n.data.drop (offset + bytes.length) }

structure Handle where
  ino : Ino Str
  offset : Nat
  pending : List UInt8

namespace Handle

def write (h : Handle) (chunk : List UInt8) : Handle := { h with pending := h.pending ++ chunk }

def flush (h : Handle) (n : Nat) (d : FsDisk) : Handle × FsDisk :=
  (⟨h.ino, h.offset + (h.pending.take n).length, h.pending.drop n⟩,
    d.setNode h.ino ((d.nodes h.ino).writeAt h.offset (h.pending.take n)))

def close (h : Handle) (d : FsDisk) : FsDisk := (h.flush h.pending.length d).2

end Handle

namespace FsDisk
variable {d d' : FsDisk} {k p src tgt : Str} {i : Ino Str} {ok : Bool}

/-! Under their names, files change as by the calls on a map from paths to nodes. -/

theorem view_createDirectories (ok : Bool) (d : FsDisk) (p : Str) :
    (createDirectories ok d p).map Disk.view = Fs.createDirectories ok d.view p := by
  unfold createDirectories Fs.createDirectories lookup
  cases ok with
  | false => rfl
  | true =>
    cases Fs.lookup d.view p with
    | none => exact congrArg some (Disk.view_create d (cStr p) newDir)
    | some n => cases hn : n.directory <;> simp [hn]

theorem view_fopenAppend (ok : Bool) (d : FsDisk) (p : Str) :
    (fopenAppend ok d p).map Disk.view = Fs.fopenAppend ok d.view p := by
  unfold fopenAppend Fs.fopenAppend lookup
  split
  · cases Fs.lookup d.view p with
    | none => exact congrArg some (Disk.view_create d (cStr p) newFile)
    | some n => rfl
  · rfl

theorem view_touch (mkdirOk fopenOk : Bool) (d : FsDisk) (p : Str) :
    Fs.touch mkdirOk fopenOk d.view p =
      ((touch mkdirOk fopenOk d p).1, (touch mkdirOk fopenOk d p).2.view) := by
  have hdirs : (if Fs.parentPath p = [] then some d.view
      else Fs.createDirectories mkdirOk d.view (Fs.parentPath p)) =
      (if Fs.parentPath p = [] then some d
        else createDirectories mkdirOk d (Fs.parentPath p)).map Disk.view := by
    split
    · rfl
    · exact (view_createDirectories mkdirOk d _).symm
  simp only [touch, Fs.touch]
  rw [hdirs]
  cases if Fs.parentPath p = [] then some d else createDirectories mkdirOk d (Fs.parentPath p) with
  | none => rfl
  | some d₁ =>
    have hfile := view_fopenAppend fopenOk d₁ p
    cases ho : fopenAppend fopenOk d₁ p with
    | none =>
      rw [ho] at hfile
      simp [← hfile, ho]
    | some d₂ =>
      rw [ho] at hfile
      simp [← hfile, ho]

theorem lookup_openable (h : Fs.openable d.view p = true) :
    Fs.lookup d.view p = (d.names (cStr p)).map d.nodes := by
  unfold Fs.lookup
  split
  next hname =>
    unfold Fs.openable Fs.lookup at h
    rw [if_pos hname] at h
    cases h
  next => rfl

theorem view_ofstreamOpen (ok : Bool) (d : FsDisk) (p : Str) :
    (ofstreamOpen ok d p).map (fun r => r.2.view) = Fs.ofstreamOpen ok d.view p := by
  unfold ofstreamOpen Fs.ofstreamOpen
  split
  next h =>
    have ho : Fs.openable d.view p = true := by
      simp only [Bool.and_eq_true] at h
      exact h.2
    rw [lookup_openable ho]
    cases hi : d.names (cStr p) with
    | none => exact congrArg some (Disk.view_create d (cStr p) newFile)
    | some i => exact congrArg some (Disk.view_setNode hi { d.nodes i with data := [] })
  next => rfl

theorem view_mv (ok : Bool) (d : FsDisk) (src tgt : Str) :
    (mv ok d src tgt).map Disk.view = Fs.mv ok d.view src tgt := by
  cases hm : Fs.mv ok d.view src tgt with
  | none => simp [mv, hm]
  | some fs =>
    obtain ⟨n, hn, _, hd, _, rfl⟩ := Fs.mv_spec hm
    have hsrc : d.view (cStr src) = some n := by
      unfold Fs.lookup at hn
      split at hn
      · obtain rfl := Option.some.inj hn
        cases hd
      · exact hn
    simp only [mv, hm, Option.map_some, Disk.view_rename, hsrc]
    rfl

theorem mv_rename (h : mv ok d src tgt = some d') : d' = d.rename (cStr src) (cStr tgt) := by
  unfold mv at h
  split at h
  · cases h
  · exact (Option.some.inj h).symm

/-! What becomes of the other files. -/

theorem names_of_lookup (h : lookup d p = none) : d.names (cStr p) = none := by
  unfold lookup Fs.lookup at h
  split at h
  · cases h
  · exact Option.map_eq_none_iff.mp h

theorem create_kept {n : Node} (hk : d.names k ≠ none) (hp : lookup d p = none) :
    Disk.SameAt k d (d.create (cStr p) n) := by
  apply Disk.SameAt.create
  rintro rfl
  exact hk (names_of_lookup hp)

theorem createDirectories_kept (hk : d.names k ≠ none) (h : createDirectories ok d p = some d') :
    Disk.SameAt k d d' := by
  unfold createDirectories at h
  split at h
  · next hn =>
    obtain rfl := Option.some.inj h
    exact create_kept hk hn
  · split at h
    · obtain rfl := Option.some.inj h
      exact .refl k d
    · cases h
  · cases h

theorem fopenAppend_kept (hk : d.names k ≠ none) (h : fopenAppend ok d p = some d') :
    Disk.SameAt k d d' := by
  unfold fopenAppend at h
  split at h
  · obtain rfl := Option.some.inj h
    split
    · exact .refl k d
    · next hn => exact create_kept hk (Option.not_isSome_iff_eq_none.mp hn)
  · cases h

theorem touch_kept (mkdirOk fopenOk : Bool) (p : Str) (hk : d.names k ≠ none) :
    Disk.SameAt k d (touch mkdirOk fopenOk d p).2 := by
  have hdirs : ∀ d₁, (if Fs.parentPath p = [] then some d
      else createDirectories mkdirOk d (Fs.parentPath p)) = some d₁ → Disk.SameAt k d d₁ := by
    intro d₁ h
    split at h
    · obtain rfl := Option.some.inj h
      exact .refl k d
    · exact createDirectories_kept hk h
  simp only [touch]
  split
  · exact .refl k d
  · next d₁ h₁ =>
    have hd₁ := hdirs d₁ h₁
    split
    · exact hd₁
    · next d₂ h₂ => exact hd₁.trans (fopenAppend_kept (hd₁.name ▸ hk) h₂)

theorem ofstreamOpen_spec (h : ofstreamOpen ok d p = some (i, d')) :
    d'.names (cStr p) = some i ∧ (d'.nodes i).data = [] ∧ (d'.nodes i).openable = true ∧
      ∀ k, k ≠ cStr p → Disk.SameAt k d d' := by
  unfold ofstreamOpen at h
  split at h
  next hok =>
    have ho : Fs.openable d.view p = true := by
      simp only [Bool.and_eq_true] at hok
      exact hok.2
    cases hi : d.names (cStr p) with
    | none =>
      rw [hi] at h
      obtain ⟨rfl, rfl⟩ := Prod.mk.inj (Option.some.inj h)
      refine ⟨Function.update_self _ _ _, ?_, ?_, fun k hk => .create hk d newFile⟩
      · simp [Disk.create, newFile]
      · simp [Disk.create]
        decide
    | some j =>
      rw [hi] at h
      obtain ⟨rfl, rfl⟩ := Prod.mk.inj (Option.some.inj h)
      refine ⟨hi, ?_, ?_, fun k hk => .setNode hi hk _⟩
      · simp [Disk.setNode]
      · have hopen := ho
        unfold Fs.openable at hopen
        rw [lookup_openable ho, hi] at hopen
        have hnode : (d.setNode j { d.nodes j with data := [] }).nodes j =
          { d.nodes j with data := [] } := Function.update_self _ _ _
        rw [hnode]
        exact hopen
  next => cases h

end FsDisk

theorem Node.writeAt_end {n : Node} {bytes : List UInt8} :
    n.writeAt n.data.length bytes = { n with data := n.data ++ bytes } := by
  simp [Node.writeAt]

end Acord
