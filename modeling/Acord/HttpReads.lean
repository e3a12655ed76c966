import Acord.GetSync
import Acord.Lib.Uri

/-! What is assumed of reading a response, and a web of fixed responses that meets it. -/

namespace Acord
open Ac RequestLoop Iteration

/-- What the library promises of reading a response, where `Serves w c len B` says that the
connection `c` is about to deliver a 200 response without a Location and with the body `B`, whose
length the header states if `len`, and `Holds w c buf p R` that `R` is still to be read of it.
A header is read into an empty buffer and may take bytes of the body with it; a read moves bytes
of the body, and returns when the message is complete or else when the buffer is full. -/
structure Reads (W : HttpWorld lib S) (Serves : S → lib.Conn → Bool → List UInt8 → Prop)
    (Holds : S → lib.Conn → List UInt8 → lib.Parser → List UInt8 → Prop) : Prop where
  header : ∀ {w c len B}, Serves w c len B → ∃ buf p w',
    W.answer w (.readHeader c []) = (.ok (buf, p), w') ∧ lib.location p = none ∧
    lib.result p = 200 ∧ lib.contentLength p = (if len then some B.length else none) ∧
    (lib.isDone p = true → B = []) ∧ Holds w' c buf p B
  read : ∀ {w c buf p R size}, Holds w c buf p R → lib.isDone p = false → 0 < size → ∃ r w' R',
    W.answer w (.read c buf p size) = (r, w') ∧ R = r.moved ++ R' ∧ r.moved.length ≤ size ∧
    Holds w' c r.buf r.parser R' ∧
    (lib.isDone r.parser = true ∧ R' = [] ∧ r.ec = none ∨
      lib.isDone r.parser = false ∧ R' ≠ [] ∧ r.moved.length = size ∧
        r.ec = some .needBuffer)

/-! The body of each response arrives in pieces, the first of them with the header. -/

structure WebResponse where
  location : Option Str
  result : Nat
  hasLength : Bool
  pieces : List (List UInt8)

structure WebParser where
  response : WebResponse
  done : Bool

structure WebRead where
  moved : List UInt8
  buf : List UInt8
  left : List (List UInt8)

def webRead (buf : List UInt8) : List (List UInt8) → Nat → WebRead
  | [], size => ⟨buf.take size, buf.drop size, []⟩
  | piece :: left, size =>
    if size < buf.length then ⟨buf.take size, buf.drop size, piece :: left⟩
    else
      let r := webRead piece left (size - buf.length)
      { r with moved := buf ++ r.moved }

theorem webRead_spec (buf : List UInt8) (left : List (List UInt8)) (size : Nat) :
    buf ++ left.flatten =
      (webRead buf left size).moved ++
        ((webRead buf left size).buf ++ (webRead buf left size).left.flatten) ∧
    (webRead buf left size).moved.length ≤ size ∧
    ((webRead buf left size).buf = [] ∧ (webRead buf left size).left = [] ∨
      (webRead buf left size).buf ≠ [] ∧ (webRead buf left size).moved.length = size) := by
  induction left generalizing buf size with
  | nil =>
    refine ⟨by simp [webRead], by simp [webRead], ?_⟩
    rcases Nat.lt_or_ge size buf.length with h | h
    · right
      simp only [webRead, ne_eq, List.drop_eq_nil_iff, List.length_take]
      omega
    · exact .inl ⟨List.drop_eq_nil_iff.mpr h, rfl⟩
  | cons piece left ih =>
    unfold webRead
    split
    · next h =>
      refine ⟨by simp [← List.append_assoc], by simp, ?_⟩
      right
      simp only [ne_eq, List.drop_eq_nil_iff, List.length_take]
      omega
    · next h =>
      obtain ⟨hall, hle, hend⟩ := ih piece (size - buf.length)
      refine ⟨?_, ?_, ?_⟩
      · rw [List.flatten_cons, hall, List.append_assoc]
      · rw [List.length_append]
        omega
      · refine hend.imp_right fun ⟨hne, hfull⟩ => ⟨hne, ?_⟩
        rw [List.length_append]
        omega

def webLib : HttpLib where
  supportsHttps := true
  fromUri url :=
    let u := Rfc3986.parse url
    ⟨u.scheme.getD [], u.authority.getD [], u.path ++ Rfc3986.queryPart u⟩
  getSchemeFromUri url := (Rfc3986.parse url).scheme.getD []
  Resolved := Str × Str
  Conn := Str × Str
  Parser := WebParser
  location p := p.response.location
  result p := p.response.result
  contentLength p :=
    if p.response.hasLength then some p.response.pieces.flatten.length else none
  isDone p := p.done

abbrev WebLeft := List (List UInt8)

def webAnswer (response : WebResponse) (left : WebLeft) :
    (op : HttpOp webLib) → op.Res × WebLeft
  | .resolve host service => (.ok (host, service), left)
  | .connect resolved => (.ok resolved, left)
  | .handshake _ _ => (.ok (), left)
  | .write _ _ => (.ok (), response.pieces)
  | .readHeader _ (_ :: _) => (.error (.error (lit "bad version")), left)
  | .readHeader _ [] =>
    (.ok (left.headD [], ⟨response, response.hasLength && left.flatten.isEmpty⟩), left.tail)
  | .read _ buf parser size =>
    let r := webRead buf left size
    (⟨r.buf, { parser with done := r.buf.isEmpty }, r.moved,
      if r.buf.isEmpty then none else some .needBuffer⟩, r.left)

def webNet (web : Str → WebResponse) (url : Str) : HttpWorld webLib WebLeft := ⟨webAnswer (web url)⟩

def WebServes (response : WebResponse) (left : WebLeft) (_ : Str × Str) (len : Bool)
    (B : List UInt8) : Prop :=
  response.location = none ∧ response.result = 200 ∧ response.hasLength = len ∧
    response.pieces = left ∧ left.flatten = B

def WebHolds (left : WebLeft) (_ : Str × Str) (buf : List UInt8) (_ : WebParser)
    (R : List UInt8) : Prop := buf ++ left.flatten = R

theorem webNet_reads (web : Str → WebResponse) (url : Str) :
    Reads (webNet web url) (WebServes (web url)) WebHolds where
  header := by
    rintro left c len B ⟨hloc, hok, rfl, hpieces, rfl⟩
    refine ⟨_, _, _, rfl, hloc, hok, ?_, ?_, ?_⟩
    · simp only [webLib, hpieces]
    · intro hdone
      simp only [webLib, Bool.and_eq_true, List.isEmpty_iff] at hdone
      exact hdone.2
    · cases left with
      | nil => rfl
      | cons piece left => rfl
  read := by
    rintro left c buf p R size rfl - -
    obtain ⟨hall, hle, hend⟩ := webRead_spec buf left size
    refine ⟨_, _, _, rfl, hall, hle, rfl, ?_⟩
    rcases hend with ⟨hbuf, hleft⟩ | ⟨hbuf, hfull⟩
    · left
      simp [webLib, hbuf, hleft]
    · right
      simp [webLib, hbuf, hfull]

end Acord
