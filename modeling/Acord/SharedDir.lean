import Acord.AssetPaths
import Acord.FsDisk
import Acord.Lib.Transition

/-! Instances of the asset manager service on one asset directory, step by step: each is sequential
and may be killed and restarted, and their steps interleave in any order. -/

namespace Acord
open Ac Transition Inodes

def AssetDir.urlTarget (dir : AssetDir) (url : Str) : Str := dir.target (Fs.getFileName url)

def AssetDir.urlDlPath (dir : AssetDir) (url : Str) : Str := dir.dlPath (Fs.getFileName url)

inductive Serving
  -- where an instance is with the URL it serves: `ofs` is the open stream, and `rest` is what the
  -- generator is yet to hand out of `body`
  | idle
  | looking (url : Str)
  | touching (url : Str)
  | opening (url : Str)
  | fetching (url : Str) (ofs : Handle)
  | receiving (url : Str) (ofs : Handle) (body rest : List UInt8)
  | moving (url : Str) (body : List UInt8)
  | caching (url : Str)

def Serving.downloading : Serving → Option Str
  | fetching url _ | receiving url _ _ _ | moving url _ => some url
  | _ => none

structure Instance where
  assetUrlToPath : Str → Option Str
  serving : Serving

def Instance.start : Instance := ⟨fun _ => none, .idle⟩

structure Download where
  url : Str
  body : List UInt8

/-- The directory with its instances; `placed` is what the last rename onto each path was a
download of. -/
structure SharedDir (ι : Type) where
  disk : FsDisk
  instances : ι → Instance
  placed : Str → Option Download

inductive DirEvent
  | internal
  | opened (url : Str)
  | done (url : Str) (body : List UInt8)
  | renamed (url : Str)
  | reported (url path : Str)
  | killed

namespace SharedDir
variable {ι : Type} [DecidableEq ι] (s : SharedDir ι) (i : ι)

def setInstance (c : Instance) : SharedDir ι :=
  { s with instances := Function.update s.instances i c }

def goto (p : Serving) : SharedDir ι := s.setInstance i { s.instances i with serving := p }

def setDisk (d : FsDisk) : SharedDir ι := { s with disk := d }

def remember (url path : Str) : SharedDir ι :=
  s.setInstance i
    ⟨Function.update (s.instances i).assetUrlToPath url (some path), .idle⟩

def place (path : Str) (dl : Download) : SharedDir ι :=
  { s with placed := Function.update s.placed (cStr path) (some dl) }

theorem setInstance_instances (c : Instance) (j : ι) :
    (s.setInstance i c).instances j = if j = i then c else s.instances j :=
  Function.update_apply s.instances i c j

theorem goto_serving (p : Serving) (j : ι) : ((s.goto i p).instances j).serving =
    if j = i then p else (s.instances j).serving := by
  rw [goto, setInstance_instances]
  split <;> rfl

theorem goto_assetUrlToPath (p : Serving) (j : ι) :
    ((s.goto i p).instances j).assetUrlToPath = (s.instances j).assetUrlToPath := by
  rw [goto, setInstance_instances]
  split
  · next h => rw [h]
  · rfl

theorem goto_goto (p q : Serving) : (s.goto i p).goto i q = s.goto i q := by
  simp [goto, setInstance]

theorem goto_setDisk_goto (d : FsDisk) (p q : Serving) :
    ((s.goto i p).setDisk d).goto i q = (s.setDisk d).goto i q :=
  goto_goto (s.setDisk d) i p q

theorem goto_self (p : Serving) : ((s.goto i p).instances i).serving = p := by
  rw [goto_serving, if_pos rfl]

omit [DecidableEq ι] in
theorem place_placed (path : Str) (dl : Download) (k : Str) :
    (s.place path dl).placed k = if k = cStr path then some dl else s.placed k :=
  Function.update_apply s.placed (cStr path) (some dl) k

omit [DecidableEq ι] in
theorem place_ne_none {k : Str} (path : Str) (dl : Download) (hk : s.placed k ≠ none) :
    (s.place path dl).placed k ≠ none := by
  rw [place_placed]
  split
  · exact Option.some_ne_none _
  · exact hk

end SharedDir

variable {ι : Type} [DecidableEq ι]

inductive DirStep (dir : AssetDir) (serves : Str → List UInt8 → Prop) :
    SharedDir ι → ι × DirEvent → SharedDir ι → Prop
  -- The steps of the instances, where `serves url body` says that a download of `url` may hand out
  -- `body`. A call that fails, or a chunk that throws, may come at any point.
  | cached {s : SharedDir ι} {i : ι} {url path : Str} (due : (s.instances i).serving = .idle)
      (hit : (s.instances i).assetUrlToPath url = some path) :
      DirStep dir serves s (i, .reported url path) s
  | missed {s : SharedDir ι} {i : ι} {url : Str} (due : (s.instances i).serving = .idle)
      (miss : (s.instances i).assetUrlToPath url = none) :
      DirStep dir serves s (i, .internal) (s.goto i (.looking url))
  | found {s : SharedDir ι} {i : ι} {url : Str} {ok : Bool}
      (due : (s.instances i).serving = .looking url)
      (stat : (Fs.basicStat ok s.disk.view (dir.urlTarget url)).isFile = true) :
      DirStep dir serves s (i, .reported url (dir.urlTarget url))
        (s.remember i url (dir.urlTarget url))
  | absent {s : SharedDir ι} {i : ι} {url : Str} {ok : Bool}
      (due : (s.instances i).serving = .looking url)
      (stat : (Fs.basicStat ok s.disk.view (dir.urlTarget url)).isFile = false) :
      DirStep dir serves s (i, .internal) (s.goto i (.touching url))
  | touched {s : SharedDir ι} {i : ι} {url : Str} {mkdirOk fopenOk : Bool}
      (due : (s.instances i).serving = .touching url)
      (ok : (s.disk.touch mkdirOk fopenOk (dir.urlDlPath url)).1 = .ok ()) :
      DirStep dir serves s (i, .internal)
        ((s.setDisk (s.disk.touch mkdirOk fopenOk (dir.urlDlPath url)).2).goto i (.opening url))
  | touchFailed {s : SharedDir ι} {i : ι} {url : Str} {mkdirOk fopenOk : Bool} {e : Exn}
      (due : (s.instances i).serving = .touching url)
      (err : (s.disk.touch mkdirOk fopenOk (dir.urlDlPath url)).1 = .error e) :
      DirStep dir serves s (i, .internal)
        ((s.setDisk (s.disk.touch mkdirOk fopenOk (dir.urlDlPath url)).2).goto i .idle)
  | opened {s : SharedDir ι} {i : ι} {url : Str} {ok : Bool} {ino : Ino Str} {d : FsDisk}
      (due : (s.instances i).serving = .opening url)
      (ofs : s.disk.ofstreamOpen ok (dir.urlDlPath url) = some (ino, d)) :
      DirStep dir serves s (i, .opened url)
        ((s.setDisk d).goto i (.fetching url ⟨ino, 0, []⟩))
  | openFailed {s : SharedDir ι} {i : ι} {url : Str} {ok : Bool}
      (due : (s.instances i).serving = .opening url)
      (ofs : s.disk.ofstreamOpen ok (dir.urlDlPath url) = none) :
      DirStep dir serves s (i, .reported url []) (s.goto i .idle)
  | started {s : SharedDir ι} {i : ι} {url : Str} {ofs : Handle} {body : List UInt8}
      (due : (s.instances i).serving = .fetching url ofs) (gen : serves url body) :
      DirStep dir serves s (i, .internal) (s.goto i (.receiving url ofs body body))
  | startFailed {s : SharedDir ι} {i : ι} {url : Str} {ofs : Handle}
      (due : (s.instances i).serving = .fetching url ofs) :
      DirStep dir serves s (i, .reported url [])
        ((s.setDisk (ofs.close s.disk)).goto i .idle)
  | chunk {s : SharedDir ι} {i : ι} {url : Str} {ofs : Handle} {body chunk rest : List UInt8}
      (due : (s.instances i).serving = .receiving url ofs body (chunk ++ rest)) :
      DirStep dir serves s (i, .internal)
        (s.goto i (.receiving url (ofs.write chunk) body rest))
  | flushed {s : SharedDir ι} {i : ι} {url : Str} {ofs : Handle} {body rest : List UInt8} (n : Nat)
      (due : (s.instances i).serving = .receiving url ofs body rest) :
      DirStep dir serves s (i, .internal)
        ((s.setDisk (ofs.flush n s.disk).2).goto i
          (.receiving url (ofs.flush n s.disk).1 body rest))
  | threw {s : SharedDir ι} {i : ι} {url : Str} {ofs : Handle} {body rest : List UInt8}
      (due : (s.instances i).serving = .receiving url ofs body rest) :
      DirStep dir serves s (i, .reported url [])
        ((s.setDisk (ofs.close s.disk)).goto i .idle)
  | done {s : SharedDir ι} {i : ι} {url : Str} {ofs : Handle} {body : List UInt8}
      (due : (s.instances i).serving = .receiving url ofs body []) :
      DirStep dir serves s (i, .done url body)
        ((s.setDisk (ofs.close s.disk)).goto i (.moving url body))
  | renamed {s : SharedDir ι} {i : ι} {url : Str} {body : List UInt8} {ok : Bool} {d : FsDisk}
      (due : (s.instances i).serving = .moving url body)
      (mv : s.disk.mv ok (dir.urlDlPath url) (dir.urlTarget url) = some d) :
      DirStep dir serves s (i, .renamed url)
        (((s.setDisk d).place (dir.urlTarget url) ⟨url, body⟩).goto i (.caching url))
  | renameFailed {s : SharedDir ι} {i : ι} {url : Str} {body : List UInt8} {ok : Bool}
      (due : (s.instances i).serving = .moving url body)
      (mv : s.disk.mv ok (dir.urlDlPath url) (dir.urlTarget url) = none) :
      DirStep dir serves s (i, .reported url []) (s.goto i .idle)
  | remembered {s : SharedDir ι} {i : ι} {url : Str}
      (due : (s.instances i).serving = .caching url) :
      DirStep dir serves s (i, .reported url (dir.urlTarget url))
        (s.remember i url (dir.urlTarget url))
  | killed {s : SharedDir ι} {i : ι} :
      DirStep dir serves s (i, .killed) (s.setInstance i .start)

def dirInstances (ι : Type) [DecidableEq ι] (dir : AssetDir) (serves : Str → List UInt8 → Prop)
    (fs : Fs) : System (SharedDir ι) (ι × DirEvent) where
  init s := s = ⟨.ofView newFile fs, fun _ => .start, fun _ => none⟩
  step := DirStep dir serves

/-! An instance whose steps succeed, from looking for the URL to reporting its download. -/

variable {dir : AssetDir} {serves : Str → List UInt8 → Prop} {fs : Fs} {s : SharedDir ι} {i : ι}
  {url : Str} {P : SharedDir ι → ι × DirEvent → Prop} {tr : List (ι × DirEvent)}

theorem opening_run (i : ι) (url : Str) {ino : Ino Str} {d : FsDisk} (hP : ∀ s, P s (i, .internal))
    (hr : ((dirInstances ι dir serves fs).guard P).Run tr s)
    (hidle : (s.instances i).serving = .idle) (hmiss : (s.instances i).assetUrlToPath url = none)
    (habsent : (Fs.basicStat true s.disk.view (dir.urlTarget url)).isFile = false)
    (htouch : (s.disk.touch true true (dir.urlDlPath url)).1 = .ok ())
    (hofs : (s.disk.touch true true (dir.urlDlPath url)).2.ofstreamOpen true
      (dir.urlDlPath url) = some (ino, d))
    (hopen : P ((s.setDisk (s.disk.touch true true (dir.urlDlPath url)).2).goto i (.opening url))
      (i, .opened url)) :
    ((dirInstances ι dir serves fs).guard P).Run
      (tr ++ [(i, .internal)] ++ [(i, .internal)] ++ [(i, .internal)] ++ [(i, .opened url)])
      ((s.setDisk d).goto i (.fetching url ⟨ino, 0, []⟩)) := by
  have hmissed : DirStep dir serves s (i, .internal) (s.goto i (.looking url)) :=
    .missed hidle hmiss
  have hstat : DirStep dir serves (s.goto i (.looking url)) (i, .internal) _ :=
    .absent (s.goto_self i _) habsent
  have htouched : DirStep dir serves (s.goto i (.touching url)) (i, .internal) _ :=
    .touched (s.goto_self i _) htouch
  have hopened : DirStep dir serves
      ((s.setDisk (s.disk.touch true true (dir.urlDlPath url)).2).goto i (.opening url))
      (i, .opened url) _ :=
    .opened (SharedDir.goto_self _ i _) hofs
  rw [SharedDir.goto_goto] at hstat
  rw [SharedDir.goto_setDisk_goto] at htouched hopened
  exact (((hr.next ⟨hP _, hmissed⟩).next ⟨hP _, hstat⟩).next ⟨hP _, htouched⟩).next ⟨hopen, hopened⟩

theorem received_run (body : List UInt8) {ofs : Handle} (hP : ∀ s, P s (i, .internal))
    (hr : ((dirInstances ι dir serves fs).guard P).Run tr s)
    (hdue : (s.instances i).serving = .fetching url ofs) (hgen : serves url body) :
    ((dirInstances ι dir serves fs).guard P).Run (tr ++ [(i, .internal)] ++ [(i, .internal)])
      (s.goto i (.receiving url (ofs.write body) body [])) := by
  have hstarted : DirStep dir serves s (i, .internal) _ := .started hdue hgen
  have hserving : ((s.goto i (.receiving url ofs body body)).instances i).serving =
      .receiving url ofs body (body ++ []) := by
    rw [List.append_nil]
    exact s.goto_self i _
  have hchunk : DirStep dir serves (s.goto i (.receiving url ofs body body)) (i, .internal) _ :=
    .chunk hserving
  rw [SharedDir.goto_goto] at hchunk
  exact (hr.next ⟨hP _, hstarted⟩).next ⟨hP _, hchunk⟩

theorem receiving_run (body : List UInt8) {ofs : Handle} (hP : ∀ s, P s (i, .internal))
    (hr : ((dirInstances ι dir serves fs).guard P).Run tr s)
    (hdue : (s.instances i).serving = .fetching url ofs) (hgen : serves url body)
    (hdone : ∀ s, P s (i, .done url body)) :
    ((dirInstances ι dir serves fs).guard P).Run
      (tr ++ [(i, .internal)] ++ [(i, .internal)] ++ [(i, .done url body)])
      ((s.setDisk ((ofs.write body).close s.disk)).goto i (.moving url body)) := by
  have hclosed : DirStep dir serves (s.goto i (.receiving url (ofs.write body) body []))
      (i, .done url body) _ :=
    .done (s.goto_self i _)
  rw [SharedDir.goto_setDisk_goto] at hclosed
  exact (received_run body hP hr hdue hgen).next ⟨hdone _, hclosed⟩

theorem publishing_run {body : List UInt8} {d : FsDisk}
    (hr : ((dirInstances ι dir serves fs).guard P).Run tr s)
    (hdue : (s.instances i).serving = .moving url body)
    (hmv : s.disk.mv true (dir.urlDlPath url) (dir.urlTarget url) = some d)
    (hrenamed : ∀ s, P s (i, .renamed url))
    (hreported : ∀ s path, P s (i, .reported url path)) :
    ((dirInstances ι dir serves fs).guard P).Run
      (tr ++ [(i, .renamed url)] ++ [(i, .reported url (dir.urlTarget url))])
      ((((s.setDisk d).place (dir.urlTarget url) ⟨url, body⟩).goto i (.caching url)).remember i url
        (dir.urlTarget url)) := by
  have hmoved : DirStep dir serves s (i, .renamed url) _ := .renamed hdue hmv
  have hcached : DirStep dir serves
      (((s.setDisk d).place (dir.urlTarget url) ⟨url, body⟩).goto i (.caching url))
      (i, .reported url (dir.urlTarget url)) _ :=
    .remembered (SharedDir.goto_self _ i _)
  exact (hr.next ⟨hrenamed _, hmoved⟩).next ⟨hreported _ _, hcached⟩

theorem killed_run (i : ι) (hr : ((dirInstances ι dir serves fs).guard P).Run tr s)
    (hkilled : P s (i, .killed)) :
    ((dirInstances ι dir serves fs).guard P).Run (tr ++ [(i, .killed)])
      (s.setInstance i .start) :=
  have hstep : DirStep dir serves s (i, .killed) (s.setInstance i .start) := .killed
  hr.next ⟨hkilled, hstep⟩

end Acord
