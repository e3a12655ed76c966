import Acord.Dict

/-! Frames on the wire: the buffers of a websocket message and the two converters between them
and `ac::Frame`. -/

namespace Acord
open Ac

structure DictLib where
  parse : Str → Except Exn Dict
  dump : Dict → Except Exn Str
  fromCbor : List UInt8 → Except Exn Dict
  toCbor : Dict → Except Exn (List UInt8)

structure Frame where
  textBuf : Str
  binaryBuf : List UInt8
  deriving DecidableEq

def Frame.fresh : Frame := ⟨[], []⟩

def Frame.text (f : Frame) : Bool := !f.textBuf.isEmpty

inductive Message
  | text (s : Str)
  | binary (b : List UInt8)
  deriving DecidableEq

def keyOp : Str := lit "op"
def keyData : Str := lit "data"

def acToJson (f : Ac.Frame) : Dict := .object [(keyOp, .str f.op), (keyData, f.data)]

def jsonToAc (d : Dict) : Except Exn Ac.Frame := do
  -- `jsonToAc`; the output frame is assigned only when nothing throws any more
  let op ← (← d.key keyOp).getRefStr
  let data ← d.key keyData
  return ⟨op, data⟩

structure FrameCvt where
  fromAcFrame : Frame → Ac.Frame → Except Exn Frame

namespace FrameCvt
variable (lib : DictLib)

def jsonBufFromAc (f : Ac.Frame) : Except Exn Str := lib.dump (acToJson f)

def jsonBufToAc (s : Str) : Except Exn Ac.Frame := do jsonToAc (← lib.parse s)

def cborBufFromAc (f : Ac.Frame) : Except Exn (List UInt8) := lib.toCbor (acToJson f)

def cborBufToAc (b : List UInt8) : Except Exn Ac.Frame := do jsonToAc (← lib.fromCbor b)

def jsonFrameFromAc (out : Frame) (f : Ac.Frame) : Except Exn Frame := do
  return { out with textBuf := ← jsonBufFromAc lib f }

def cborFrameFromAc (out : Frame) (f : Ac.Frame) : Except Exn Frame := do
  return { out with binaryBuf := ← cborBufFromAc lib f }

def json : FrameCvt := ⟨jsonFrameFromAc lib⟩

def cbor : FrameCvt := ⟨cborFrameFromAc lib⟩

end FrameCvt

def decode (lib : DictLib) : Message → Except Exn Ac.Frame
  | .text s => FrameCvt.jsonBufToAc lib s
  | .binary b => FrameCvt.cborBufToAc lib b

def Frame.message (f : Frame) : Message := if f.text then .text f.textBuf else .binary f.binaryBuf

def FrameCvt.encode (cvt : FrameCvt) (f : Ac.Frame) : Option Message :=
  match cvt.fromAcFrame .fresh f with
  | .ok buf => some buf.message
  | .error _ => none

@[simp] theorem jsonToAc_acToJson (f : Ac.Frame) : jsonToAc (acToJson f) = .ok f := by
  have hne : keyOp ≠ keyData := by decide
  simp [jsonToAc, acToJson, Dict.key, Dict.find?, Dict.getRefStr, hne, bind, Except.bind, pure,
    Except.pure]

def CborInverts (lib : DictLib) (f : Ac.Frame) : Prop :=
  ∃ b, lib.toCbor (acToJson f) = .ok b ∧ lib.fromCbor b = .ok (acToJson f)

theorem cbor_fromAcFrame {lib : DictLib} {f : Ac.Frame} {b : List UInt8}
    (h : lib.toCbor (acToJson f) = .ok b) :
    (FrameCvt.cbor lib).fromAcFrame .fresh f = .ok ⟨[], b⟩ := by
  simp [FrameCvt.cbor, FrameCvt.cborFrameFromAc, FrameCvt.cborBufFromAc, h, Frame.fresh, bind,
    Except.bind, pure, Except.pure]

theorem decode_encode_cbor {lib : DictLib} {f : Ac.Frame} (h : CborInverts lib f) :
    ∃ m, (FrameCvt.cbor lib).encode f = some m ∧ decode lib m = .ok f := by
  obtain ⟨b, hto, hfrom⟩ := h
  refine ⟨.binary b, ?_, ?_⟩
  · simp [FrameCvt.encode, cbor_fromAcFrame hto, Frame.message, Frame.text]
  · simp [decode, FrameCvt.cborBufToAc, hfrom, bind, Except.bind]

def hiFrame : Ac.Frame := ⟨lit "hi", .null⟩

def hiCbor : List UInt8 :=
  [0xA2, 0x64, 0x64, 0x61, 0x74, 0x61, 0xF6, 0x62, 0x6F, 0x70, 0x62, 0x68, 0x69]

def hiJson : Str := lit "\x7b\"data\":null,\"op\":\"hi\"\x7d"

def badOpCbor : List UInt8 := [0xA1, 0x62, 0x6F, 0x70, 0x61, 0xFF]

def sampleLib : DictLib where
  parse s := if s = hiJson then .ok (acToJson hiFrame) else .error (.error (lit "parse_error.101"))
  dump d := if d.utf8 then .ok hiJson else .error (.error (lit "type_error.316"))
  fromCbor b :=
    if b = hiCbor then .ok (acToJson hiFrame)
    else if b = badOpCbor then .ok (.object [(keyOp, .str [0xFF])])
    else .error (.error (lit "parse_error.110"))
  toCbor _ := .ok hiCbor

theorem sampleLib_inverts : CborInverts sampleLib hiFrame := ⟨hiCbor, rfl, rfl⟩

end Acord
