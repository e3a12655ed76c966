import Acord.FsUtil
import Acord.SyncGenerator
import Acord.Lib.World
import Acord.Lib.Iteration

/-! `ahttp::get_sync`: the redirect loop, and the coroutine that reads the body of the response it
ends with. -/

namespace Acord
open Ac RequestLoop Iteration

structure UriSplit where
  scheme : Str
  authority : Str
  reqPath : Str

/-- What is used of the libraries that split URIs, resolve, connect and parse responses. A parser
is that of a response, with its header and how far it is with the body. -/
structure HttpLib where
  supportsHttps : Bool
  fromUri : Str → UriSplit
  getSchemeFromUri : Str → Str
  Resolved : Type
  Conn : Type
  Parser : Type
  location : Parser → Option Str
  result : Parser → Nat
  contentLength : Parser → Option Nat
  isDone : Parser → Bool

structure HttpRequest where
  method : Str
  target : Str
  keepAlive : Bool
  host : Str
  userAgent : Str
  accept : Str

inductive ReadError
  | needBuffer
  | other (e : Exn)

structure ReadResult (lib : HttpLib) where
  buf : List UInt8
  parser : lib.Parser
  moved : List UInt8
  ec : Option ReadError

inductive HttpOp (lib : HttpLib)
  | resolve (host service : Str)
  | connect (resolved : lib.Resolved)
  | handshake (conn : lib.Conn) (serverName : Str)
  | write (conn : lib.Conn) (req : HttpRequest)
  | readHeader (conn : lib.Conn) (buf : List UInt8)
  | read (conn : lib.Conn) (buf : List UInt8) (parser : lib.Parser) (size : Nat)

abbrev HttpOp.Res {lib : HttpLib} : HttpOp lib → Type
  | resolve _ _ => Except Exn lib.Resolved
  | connect _ => Except Exn lib.Conn
  | handshake _ _ | write _ _ => Except Exn Unit
  | readHeader _ _ => Except Exn (List UInt8 × lib.Parser)
  | read _ _ _ _ => ReadResult lib

abbrev httpEffects (lib : HttpLib) : Effects := ⟨HttpOp lib, HttpOp.Res⟩

abbrev HttpProg (lib : HttpLib) (α : Type) := Prog (httpEffects lib) Exn α

abbrev HttpWorld (lib : HttpLib) (S : Type) := World (httpEffects lib) S

variable (lib : HttpLib)

def supportsUrl (url : Str) : Bool :=
  let scheme := lib.getSchemeFromUri url
  if scheme = lit "http" then true
  else if scheme = lit "https" then lib.supportsHttps
  else false

structure HttpStream where
  conn : lib.Conn
  ssl : Bool

namespace HttpStream
variable {lib} (s : HttpStream lib)

def handshake (host : Str) : HttpProg lib Unit :=
  if s.ssl then .call (.handshake s.conn (cStr host)) fun r => .ofExcept r else pure ()

def write (req : HttpRequest) : HttpProg lib Unit := .call (.write s.conn req) fun r => .ofExcept r

def readHeader (buf : List UInt8) : HttpProg lib (List UInt8 × lib.Parser) :=
  .call (.readHeader s.conn buf) fun r => .ofExcept r

end HttpStream

def resolve (host service : Str) : HttpProg lib lib.Resolved :=
  .call (.resolve host service) fun r => .ofExcept r

def connect (resolved : lib.Resolved) : HttpProg lib lib.Conn :=
  .call (.connect resolved) fun r => .ofExcept r

def unsupportedScheme (scheme : Str) : Exn := .error (lit "unsupported scheme: " ++ scheme)

def openStream (splitUrl : UriSplit) : HttpProg lib (HttpStream lib) := do
  let resolved ← resolve lib splitUrl.authority splitUrl.scheme
  let conn ← connect lib resolved
  if splitUrl.scheme = lit "http" then return ⟨conn, false⟩
  else if lib.supportsHttps ∧ splitUrl.scheme = lit "https" then return ⟨conn, true⟩
  else .throw (unsupportedScheme splitUrl.scheme)

def getRequest (splitUrl : UriSplit) : HttpRequest where
  method := lit "GET"
  target := splitUrl.reqPath
  keepAlive := true
  host := splitUrl.authority
  userAgent := lit "ac-file-download/1.0.0"
  accept := lit "*/*"

def sendRequest (url : Str) : HttpProg lib (HttpStream lib) := do
  let splitUrl := lib.fromUri url
  let stream ← openStream lib splitUrl
  stream.handshake splitUrl.authority
  stream.write (getRequest splitUrl)
  return stream

def startsWithSlash : Str → Bool
  | c :: _ => c = slash
  | [] => false

def redirectUrl (splitUrl : UriSplit) (loc : Str) : Str :=
  if startsWithSlash loc then splitUrl.scheme ++ lit "://" ++ splitUrl.authority ++ loc else loc

def responseStatus (result : Nat) : Exn :=
  .error (lit "http response status: " ++ lit (toString result))

inductive Hop
  | redirect (url : Str) (buf : List UInt8)
  | response (stream : HttpStream lib) (buf : List UInt8) (parser : lib.Parser)

def clear (_ : List UInt8) : List UInt8 := []

def hop (buf : List UInt8) (url : Str) : HttpProg lib (Hop lib) := do
  let buf := clear buf
  let stream ← sendRequest lib url
  let (buf, parser) ← stream.readHeader buf
  match lib.location parser with
  | some loc => return .redirect (redirectUrl (lib.fromUri url) loc) buf
  | none =>
    if lib.result parser ≠ 200 then .throw (responseStatus (lib.result parser))
    else return .response stream buf parser

structure Requesting (S : Type) where
  url : Str
  buf : List UInt8
  world : S

/-- The frame of the coroutine once its redirect loop has ended. -/
structure Body (S : Type) where
  url : Str
  stream : HttpStream lib
  buf : List UInt8
  parser : lib.Parser
  world : S

variable {lib} {S : Type} (net : Str → HttpWorld lib S)

def hopRun (q : Requesting S) : Ran (httpEffects lib) Exn (Hop lib) S :=
  (hop lib q.buf q.url).run (net q.url) q.world

def hopStep (q : Requesting S) : Requesting S ⊕ Outcome Exn (Body lib S) :=
  match (hopRun net q).outcome with
  | .ret (.redirect url buf) => .inl ⟨url, buf, (hopRun net q).world⟩
  | .ret (.response stream buf parser) =>
    .inr (.ret ⟨q.url, stream, buf, parser, (hopRun net q).world⟩)
  | .throw e => .inr (.throw e)
  | .crash => .inr .crash

def Body.loop (b : Body lib S) : Resumed (Body lib S) :=
  if lib.isDone b.parser then .returned else .awaiting b

def Body.resume : Producer (Body lib S) := fun b chunkBuf =>
  let (r, world) :=
    (net b.url).answer b.world (.read b.stream.conn b.buf b.parser chunkBuf.length)
  let bodySize := chunkBuf.length - r.moved.length
  let chunkBuf := r.moved ++ chunkBuf.drop r.moved.length
  match r.ec with
  | some (.other e) => (chunkBuf, .threw e)
  | _ => (chunkBuf.take (chunkBuf.length - bodySize),
      Body.loop { b with buf := r.buf, parser := r.parser, world := world })

/-- `get_sync`, given up after `n` requests. -/
def getSync (n : Nat) (url : Str) (world : S) :
    Option (Except Exn (SyncGenerator (Body lib S))) :=
  match iter (hopStep net) n ⟨url, [], world⟩ with
  | .inr (.ret b) => some (SyncGenerator.create (lib.contentLength b.parser) b.loop)
  | .inr (.throw e) => some (.error e)
  | _ => none

end Acord
