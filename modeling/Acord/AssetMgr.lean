import Acord.FsUtil
import Acord.Schema
import Acord.Lib.Transition

/-! The asset manager service: how it finds or downloads each asset of a request, and its sessions,
which share one service and take turns at the points where they await their client. -/

namespace Acord
open Ac Transition

inductive AssetOp
  | touch (path : Str)
  | openFile (path : Str)
  | getSync (url : Str)
  | rename (src tgt : Str)
  | found (url path : Str)

/-- `m_mainAssetDir`, whose path comes from an environment variable and so has no NUL. -/
structure AssetDir where
  path : Str
  noNul : 0 ∉ path

def AssetDir.target (dir : AssetDir) (fname : Str) : Str := dir.path ++ lit "/" ++ fname

def AssetDir.dlPath (dir : AssetDir) (fname : Str) : Str := dir.path ++ lit "/.acord-dl/" ++ fname

/-- `AssetMgrService` with the file system it works on and the calls it has made. -/
structure AssetMgr where
  mainAssetDir : AssetDir
  assetUrlToPath : Str → Option Str
  fs : Fs
  log : List AssetOp

def AssetMgr.construct (dir : AssetDir) (fs : Fs) : AssetMgr := ⟨dir, fun _ => none, fs, []⟩

/-- How the calls made for one URL turn out: whether each file call is let succeed, the chunks or
exceptions of the download, how many bytes each write accepts and how many the close loses. -/
structure Outcomes where
  stat : Bool
  mkdir : Bool
  fopen : Bool
  ofsOpen : Bool
  getSync : Except Exn (List (Except Exn (List UInt8)))
  room : Nat → Nat
  closeLoss : Nat
  mv : Bool

structure Ofs where
  bad : Bool
  data : List UInt8

def Ofs.write (ofs : Ofs) (room : Nat) (chunk : List UInt8) : Ofs :=
  if ofs.bad then ofs
  else if chunk.length ≤ room then { ofs with data := ofs.data ++ chunk }
  else ⟨true, ofs.data ++ chunk.take room⟩

def downloadLoop (room : Nat → Nat) : Nat → Ofs → List (Except Exn (List UInt8)) →
    Except Exn Unit × Ofs
  | _, ofs, [] => (.ok (), ofs)
  | _, ofs, .error e :: _ => (.error e, ofs)
  | i, ofs, .ok chunk :: rest => downloadLoop room (i + 1) (ofs.write (room i) chunk) rest

def Ofs.close (ofs : Ofs) (loss : Nat) : List UInt8 := ofs.data.take (ofs.data.length - loss)

namespace AssetMgr
variable (o : Outcomes) (url : Str) (s : AssetMgr)

def record (op : AssetOp) : AssetMgr := { s with log := s.log ++ [op] }

def setFs (fs : Fs) : AssetMgr := { s with fs := fs }

def setPath (path : Str) : AssetMgr :=
  -- `m_assetUrlToPath[url] = path`
  { s with assetUrlToPath := Function.update s.assetUrlToPath url (some path) }

def localDirs : List Str := [s.mainAssetDir.path]

def targetPath : Str := s.mainAssetDir.target (Fs.getFileName url)

def dlPath : Str := s.mainAssetDir.dlPath (Fs.getFileName url)

def publish : Str × AssetMgr :=
  let s := s.record (.rename (s.dlPath url) (s.targetPath url))
  match Fs.mv o.mv s.fs (s.dlPath url) (s.targetPath url) with
  | none => ([], s)
  | some fs => (s.targetPath url, (s.setFs fs).setPath url (s.targetPath url))

def closeFile (ofs : Ofs) : AssetMgr :=
  -- the bytes of the stream get into the file as it is closed, by hand or by an exception
  s.setFs (s.fs.store (s.dlPath url) (ofs.close o.closeLoss))

def fetch : Str × AssetMgr :=
  -- the `try` block of a download, over an open stream; its handler only logs
  let s := s.record (.getSync url)
  match o.getSync with
  | .error _ => ([], s)
  | .ok chunks =>
    match downloadLoop o.room 0 ⟨false, []⟩ chunks with
    | (.error _, ofs) => ([], s.closeFile o url ofs)
    | (.ok _, ofs) => publish o url (s.closeFile o url ofs)

def download : Except Exn Str × AssetMgr :=
  let s := s.record (.touch (s.dlPath url))
  match Fs.touch o.mkdir o.fopen s.fs (s.dlPath url) with
  -- an exception of `touch` is not caught
  | (.error e, fs) => (.error e, s.setFs fs)
  | (.ok _, fs) =>
    let s := (s.setFs fs).record (.openFile (s.dlPath url))
    match Fs.ofstreamOpen o.ofsOpen s.fs (s.dlPath url) with
    | none => (.ok [], s)
    | some fs =>
      let (path, s) := fetch o url (s.setFs fs)
      (.ok path, s)

def localPath : Option Str :=
  (s.localDirs.map fun dir => dir ++ lit "/" ++ Fs.getFileName url).find? fun path =>
    (Fs.basicStat o.stat s.fs path).isFile

def find : Except Exn Str × AssetMgr :=
  match s.assetUrlToPath url with
  | some path => (.ok path, s)
  | none =>
    match s.localPath o url with
    | some path => (.ok path, s.setPath url path)
    | none => s.download o url

def makeAvailable : Except Exn Str × AssetMgr :=
  match s.find o url with
  | (.ok path, s) => (.ok path, s.record (.found url path))
  | (.error e, s) => (.error e, s)

end AssetMgr

def makeAssetsAvailable (data : Dict) (os : Nat → Outcomes) :
    List Nat → AssetMgr → Except Exn (List Str) × AssetMgr
  | [], s => (.ok [], s)
  | i :: is, s =>
    match (data.index i).bind Dict.getRefStr with
    | .error e => (.error e, s)
    | .ok url =>
      match s.makeAvailable (os i) url with
      -- the first exception ends the loop
      | (.error e, s) => (.error e, s)
      | (.ok path, s) =>
        match makeAssetsAvailable data os is s with
        | (.error e, s) => (.error e, s)
        | (.ok paths, s) => (.ok (path :: paths), s)

def assetsFrame (paths : List Str) : Ac.Frame := ⟨lit "assets", .strings paths⟩

def runCommand (lib : FrameLib) (s : AssetMgr) (cmd : Ac.Frame) (os : Nat → Outcomes) :
    Except Exn Ac.Frame × AssetMgr :=
  if cmd.op ≠ Amgr.opMakeAssetsAvailable then (.ok (lib.error (lit "Unknown command")), s)
  else
    match makeAssetsAvailable cmd.data os (List.range cmd.data.size) s with
    | (.error e, s) => (.error e, s)
    | (.ok paths, s) => (.ok (assetsFrame paths), s)

/-- Where a session is: pushing its state frame or the answer to `cmd`, awaiting a command, ended
by the closed stream, or left by another exception. -/
inductive AssetSession
  | greeting
  | polling
  | replying (cmd reply : Ac.Frame)
  | closed
  | escaped (e : Exn)

structure AssetService where
  mgr : AssetMgr
  sessions : Nat → AssetSession

inductive AssetEvent
  | pushed (i : Nat) (f : Ac.Frame)
  | polled (i : Nat) (cmd : Ac.Frame) (os : Nat → Outcomes)
  | closed (i : Nat)

def AssetService.put (s : AssetService) (i : Nat) (c : AssetSession) : AssetService :=
  { s with sessions := Function.update s.sessions i c }

def AssetSession.after (cmd : Ac.Frame) : Except Exn Ac.Frame → AssetSession
  | .ok reply => replying cmd reply
  | .error .streamClosed => closed
  | .error e => escaped e

/-- The steps of the sessions. They share one strand, so a command is run in one step. -/
inductive AssetStep (lib : FrameLib) : AssetService → AssetEvent → AssetService → Prop
  | greeted {s : AssetService} {i : Nat} (due : s.sessions i = .greeting) :
      AssetStep lib s (.pushed i (lib.stateChange Amgr.stateId)) (s.put i .polling)
  | replied {s : AssetService} {i : Nat} {cmd reply : Ac.Frame}
      (due : s.sessions i = .replying cmd reply) :
      AssetStep lib s (.pushed i reply) (s.put i .polling)
  | polled {s : AssetService} {i : Nat} {cmd : Ac.Frame} {os : Nat → Outcomes}
      (due : s.sessions i = .polling) :
      AssetStep lib s (.polled i cmd os)
        ({ s with mgr := (runCommand lib s.mgr cmd os).2 }.put i
          (.after cmd (runCommand lib s.mgr cmd os).1))
  | closed {s : AssetService} {i : Nat} (due : ∀ e, s.sessions i ≠ .escaped e) :
      AssetStep lib s (.closed i) (s.put i .closed)

def assetService (lib : FrameLib) (dir : AssetDir) (fs : Fs) : System AssetService AssetEvent where
  init s := s = ⟨.construct dir fs, fun _ => .greeting⟩
  step := AssetStep lib

end Acord
