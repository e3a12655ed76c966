import Mathlib.Data.List.DropRight
import Mathlib.Logic.Function.Basic
import Acord.Dict

/-! The file system calls of the server, on a map from paths to nodes: what each does when the
operating system lets it succeed, and when it cannot succeed at all. -/

namespace Acord
open Ac

structure Node where
  mode : Nat
  data : List UInt8
  deriving DecidableEq

def S_IFMT : Nat := 0o170000
def S_IFREG : Nat := 0o100000
def S_IFDIR : Nat := 0o040000
def S_IFSOCK : Nat := 0o140000

def Node.regular (n : Node) : Bool := n.mode &&& S_IFMT == S_IFREG

def Node.directory (n : Node) : Bool := n.mode &&& S_IFMT == S_IFDIR

def Node.socket (n : Node) : Bool := n.mode &&& S_IFMT == S_IFSOCK

/-- What the operating system can open for writing: fifos and devices as well as regular files. -/
def Node.openable (n : Node) : Bool := !n.directory && !n.socket

def newDir : Node := ⟨0o040755, []⟩

def newFile : Node := ⟨0o100644, []⟩

def slash : UInt8 := 0x2F

/-- The part of a path the operating system sees: a C string ends at the first NUL. -/
def cStr (p : Str) : Str := p.takeWhile (· ≠ 0)

abbrev Fs := Str → Option Node

namespace Fs

def getFileName (path : Str) : Str := path.rtakeWhile (· ≠ slash)

def parentPath (path : Str) : Str :=
  let dir := path.rdropWhile (· ≠ slash)
  match dir.rdropWhile (· = slash) with
  | [] => dir.take 1
  | parent => parent

/-- Last components that name a directory whatever it holds. -/
def dirNames : List Str := [[], lit ".", lit ".."]

def lookup (fs : Fs) (p : Str) : Option Node :=
  if getFileName (cStr p) ∈ dirNames then some newDir else fs (cStr p)

def put (fs : Fs) (p : Str) (n : Option Node) : Fs := Function.update fs (cStr p) n

def openable (fs : Fs) (p : Str) : Bool :=
  match fs.lookup p with
  | none => true
  | some n => n.openable

end Fs

inductive BasicStat
  | notExist
  | file (size : Nat)
  | directory
  | other
  deriving DecidableEq

def BasicStat.isFile : BasicStat → Bool
  | file _ => true
  | _ => false

namespace Fs

def basicStat (ok : Bool) (fs : Fs) (path : Str) : BasicStat :=
  match ok, fs.lookup path with
  | true, some n =>
    if n.mode &&& S_IFREG ≠ 0 then .file n.data.length
    else if n.mode &&& S_IFDIR ≠ 0 then .directory
    else .other
  | _, _ => .notExist

def createDirectories (ok : Bool) (fs : Fs) (path : Str) : Option Fs :=
  match ok, fs.lookup path with
  | true, none => some (fs.put path (some newDir))
  | true, some n => if n.directory then some fs else none
  | false, _ => none

def fopenAppend (ok : Bool) (fs : Fs) (path : Str) : Option Fs :=
  -- `fopen` for appending, which makes a missing file
  if ok && fs.openable path then
    some (if (fs.lookup path).isSome then fs else fs.put path (some newFile))
  else none

def touchError (path : Str) : Exn := .error (lit "Failed to touch file: " ++ path)

def touch (mkdirOk fopenOk : Bool) (fs : Fs) (path : Str) : Except Exn Unit × Fs :=
  -- `fs::touch` with its default, making the parent directory first
  let parent := parentPath path
  match if parent = [] then some fs else createDirectories mkdirOk fs parent with
  | none => (.error (.error (lit "filesystem error: cannot create directories")), fs)
  | some fs =>
    match fopenAppend fopenOk fs path with
    | none => (.error (touchError path), fs)
    | some fs => (.ok (), fs)

def ofstreamOpen (ok : Bool) (fs : Fs) (path : Str) : Option Fs :=
  -- the constructor of `std::ofstream`, which truncates an existing file
  if ok && fs.openable path then
    some (fs.put path (some { (fs.lookup path).getD newFile with data := [] }))
  else none

def store (fs : Fs) (path : Str) (data : List UInt8) : Fs :=
  fs.put path ((fs.lookup path).map fun n => { n with data := data })

def mv (ok : Bool) (fs : Fs) (src tgt : Str) : Option Fs :=
  -- `fs::mv`: what is not a directory replaces anything that is none
  match fs.lookup src with
  | none => none
  | some n =>
    if ok && !n.directory && (fs.lookup tgt).all (fun m => !m.directory) then
      some ((fs.put src none).put tgt (some n))
    else none

/-! What the calls keep. -/

variable {fs fs' : Fs} {p q src tgt k : Str} {n : Node}

theorem slash_notMem_getFileName (p : Str) : slash ∉ getFileName p := by
  intro h
  have hne := List.mem_rtakeWhile_imp h
  simp at hne

theorem getFileName_append {f : Str} (d : Str) (hf : slash ∉ f) :
    getFileName (d ++ slash :: f) = f := by
  unfold getFileName List.rtakeWhile
  rw [List.reverse_append, List.reverse_cons, List.append_assoc, List.takeWhile_append_of_pos]
  · simp
  · intro a ha
    have hne : a ≠ slash := fun h => hf (h ▸ List.mem_reverse.mp ha)
    simp [hne]

theorem parentPath_append {d f : Str} (hf : slash ∉ f) (hd : d ≠ [])
    (hlast : d.getLast hd ≠ slash) :
    parentPath (d ++ slash :: f) = d := by
  have hdrop : (d ++ slash :: f).rdropWhile (· ≠ slash) = d ++ [slash] := by
    have hsplit := List.rdropWhile_append_rtakeWhile (p := (· ≠ slash)) (l := d ++ slash :: f)
    have hname : (d ++ slash :: f).rtakeWhile (· ≠ slash) = f := getFileName_append d hf
    rw [hname] at hsplit
    have hassoc : d ++ slash :: f = d ++ [slash] ++ f := by simp
    exact List.append_cancel_right (hsplit.trans hassoc)
  have hself : d.rdropWhile (· = slash) = d := by
    rw [List.rdropWhile_eq_self_iff]
    simpa using fun _ => hlast
  unfold parentPath
  rw [hdrop]
  simp only [decide_true, List.rdropWhile_concat_pos, hself]

theorem cStr_append {a : Str} (b : Str) (ha : 0 ∉ a) : cStr (a ++ b) = a ++ cStr b := by
  unfold cStr
  rw [List.takeWhile_append_of_pos]
  intro x hx
  have hne : x ≠ 0 := fun h => ha (h ▸ hx)
  simp [hne]

theorem mem_cStr {x : UInt8} (h : x ∈ cStr p) : x ∈ p :=
  (List.takeWhile_prefix _).subset h

theorem put_same (fs : Fs) (p : Str) (n : Option Node) : fs.put p n (cStr p) = n :=
  Function.update_self _ _ _

theorem put_other {n : Option Node} (h : k ≠ cStr p) : fs.put p n k = fs k :=
  Function.update_of_ne h _ _

theorem put_put (fs : Fs) (p : Str) (n m : Option Node) : (fs.put p n).put p m = fs.put p m := by
  unfold put
  exact Function.update_idem _ _ _

/-- A bit test, not a test for the file type: whatever has the bit counts as a file. -/
theorem basicStat_isFile {ok : Bool} : (basicStat ok fs p).isFile ↔
    ok = true ∧ ∃ n, fs.lookup p = some n ∧ n.mode &&& S_IFREG ≠ 0 := by
  unfold basicStat
  cases ok with
  | false => simp [BasicStat.isFile]
  | true =>
    cases hn : fs.lookup p with
    | none => simp [BasicStat.isFile]
    | some n =>
      by_cases h1 : n.mode &&& S_IFREG ≠ 0
      · simp [h1, BasicStat.isFile]
      · by_cases h2 : n.mode &&& S_IFDIR ≠ 0 <;> simp [h1, h2, BasicStat.isFile]

theorem Node.regular_bit (h : n.regular = true) : n.mode &&& S_IFREG ≠ 0 := by
  have hm : n.mode &&& S_IFMT = S_IFREG := by simpa [Node.regular] using h
  have hbit : n.mode &&& S_IFREG = S_IFREG := by
    calc n.mode &&& S_IFREG = n.mode &&& (S_IFMT &&& S_IFREG) := rfl
      _ = n.mode &&& S_IFMT &&& S_IFREG := (Nat.and_assoc _ _ _).symm
      _ = S_IFREG &&& S_IFREG := by rw [hm]
      _ = S_IFREG := Nat.and_self _
  rw [hbit]
  decide

theorem createDirectories_spec {ok : Bool} (h : createDirectories ok fs p = some fs') :
    (∃ n, fs.lookup p = some n ∧ n.directory = true ∧ fs' = fs) ∨
    (fs.lookup p = none ∧ fs' = fs.put p (some newDir)) := by
  unfold createDirectories at h
  cases ok with
  | false => simp at h
  | true =>
    cases hn : fs.lookup p with
    | none =>
      simp only [hn, Option.some.injEq] at h
      exact .inr ⟨rfl, h.symm⟩
    | some n =>
      simp only [hn, Option.ite_none_right_eq_some, Option.some.injEq] at h
      exact .inl ⟨n, rfl, h.1, h.2.symm⟩

theorem fopenAppend_spec {ok : Bool} (h : fopenAppend ok fs p = some fs') : fs.openable p = true ∧
    fs' = if (fs.lookup p).isSome then fs else fs.put p (some newFile) := by
  unfold fopenAppend at h
  simp only [Option.ite_none_right_eq_some, Bool.and_eq_true, Option.some.injEq] at h
  exact ⟨h.1.2, h.2.symm⟩

theorem lookup_put (hname : getFileName (cStr p) ∉ dirNames) (n : Option Node) :
    (fs.put p n).lookup p = n := by
  unfold lookup
  rw [if_neg hname]
  exact put_same fs p n

theorem fopenAppend_openable {ok : Bool} (h : fopenAppend ok fs p = some fs') :
    fs'.openable p = true := by
  obtain ⟨ho, rfl⟩ := fopenAppend_spec h
  split
  next => exact ho
  next hnone =>
    have hname : getFileName (cStr p) ∉ dirNames := by
      intro hmem
      simp [lookup, hmem] at hnone
    unfold openable
    rw [lookup_put hname]
    decide

theorem touch_cases (fs : Fs) (mkdirOk fopenOk : Bool) (h : parentPath p ≠ []) :
    (∃ e, touch mkdirOk fopenOk fs p = (.error (.error e), fs)) ∨
    (∃ fs₁, createDirectories mkdirOk fs (parentPath p) = some fs₁ ∧
      fopenAppend fopenOk fs₁ p = none ∧
      touch mkdirOk fopenOk fs p = (.error (touchError p), fs₁)) ∨
    (∃ fs₁ fs₂, createDirectories mkdirOk fs (parentPath p) = some fs₁ ∧
      fopenAppend fopenOk fs₁ p = some fs₂ ∧ touch mkdirOk fopenOk fs p = (.ok (), fs₂)) := by
  unfold touch
  simp only [if_neg h]
  cases hd : createDirectories mkdirOk fs (parentPath p) with
  | none => exact .inl ⟨_, rfl⟩
  | some fs₁ =>
    cases ho : fopenAppend fopenOk fs₁ p with
    | none => exact .inr (.inl ⟨fs₁, rfl, ho, by simp only [ho]⟩)
    | some fs₂ => exact .inr (.inr ⟨fs₁, fs₂, rfl, ho, by simp only [ho]⟩)

theorem ofstreamOpen_spec {ok : Bool} (h : ofstreamOpen ok fs p = some fs') : fs.openable p = true ∧
    fs' = fs.put p (some { (fs.lookup p).getD newFile with data := [] }) := by
  unfold ofstreamOpen at h
  simp only [Option.ite_none_right_eq_some, Bool.and_eq_true, Option.some.injEq] at h
  exact ⟨h.1.2, h.2.symm⟩

theorem mv_spec {ok : Bool} (h : mv ok fs src tgt = some fs') :
    ∃ n, fs.lookup src = some n ∧ ok = true ∧ n.directory = false ∧
      (∀ m, fs.lookup tgt = some m → m.directory = false) ∧
      fs' = (fs.put src none).put tgt (some n) := by
  unfold mv at h
  cases hn : fs.lookup src with
  | none => simp [hn] at h
  | some n =>
    simp only [hn, Option.ite_none_right_eq_some, Bool.and_eq_true, Bool.not_eq_true',
      Option.some.injEq] at h
    obtain ⟨⟨⟨hok, hd⟩, htgt⟩, rfl⟩ := h
    refine ⟨n, rfl, hok, hd, fun m hm => ?_, rfl⟩
    simpa [hm] using htgt

theorem mv_none (h : mv true fs src tgt = none) (hn : fs.lookup src = some n)
    (hd : n.directory = false) :
    ∃ m, fs.lookup tgt = some m ∧ m.directory = true := by
  unfold mv at h
  cases hm : fs.lookup tgt with
  | none => simp [hn, hd, hm] at h
  | some m => exact ⟨m, rfl, by simpa [hn, hd, hm] using h⟩

end Fs
end Acord
