import Acord.PumpTokens

/-! Frames through a message: what either converter encodes is decoded by the kind of the message
it is sent as, and `jsonToAc` accepts just the objects that are frames. -/

namespace Ac.Dict

/-- `operator[](key)` on a dictionary that it may change: it inserts null where nothing is, and
turns null into an object to do so. -/
def subscript (d : Dict) (k : Str) : Except Exn Dict × Dict :=
  match d with
  | .null => (.ok .null, .object [(k, .null)])
  | .object kvs =>
    match find? kvs k with
    | some v => (.ok v, .object kvs)
    | none => (.ok .null, .object (kvs ++ [(k, .null)]))
  | d => (.error (.error (lit "type_error.305")), d)

def member (d : Dict) (k : Str) : Option Dict :=
  match d with
  | .object kvs => find? kvs k
  | _ => none

def restrict (ks : List Str) : Dict → Dict
  | .object kvs => .object (kvs.filter fun kv => ks.any fun k => k = kv.1)
  | d => d

structure Same (d d' : Dict) : Prop where
  object : ∃ kvs kvs', d = .object kvs ∧ d' = .object kvs'
  member : ∀ k, d.member k = d'.member k

variable {d : Dict} {kvs : List (Str × Dict)} {k l : Str}

theorem subscript_object (kvs : List (Str × Dict)) (k : Str) :
    ∃ kvs', ((object kvs).subscript k).2 = .object kvs' ∧
      find? kvs' k = some ((find? kvs k).getD .null) ∧
      (∀ l, l ≠ k → find? kvs' l = find? kvs l) ∧
      ((find? kvs k).isSome → kvs' = kvs) := by
  cases hk : find? kvs k with
  | some v => exact ⟨kvs, by simp only [subscript, hk], hk, fun _ _ => rfl, fun _ => rfl⟩
  | none =>
    refine ⟨kvs ++ [(k, .null)], by simp only [subscript, hk], ?_, fun l hl => ?_, nofun⟩
    · have hnone := Option.map_eq_none_iff.mp hk
      simp [find?, List.find?_append, hnone]
    · simp [find?, List.find?_append, Ne.symm hl]

theorem subscript_key (d : Dict) (k : Str) :
    ∃ d', d.subscript k = (d.key k, d') ∧ ∀ l, l ≠ k → d'.key l = d.key l := by
  cases d with
  | null => exact ⟨_, rfl, fun l hl => by simp [key, find?, Ne.symm hl]⟩
  | object kvs =>
    obtain ⟨kvs', hsub, _, hother, _⟩ := subscript_object kvs k
    refine ⟨.object kvs', Prod.ext ?_ hsub, fun l hl => ?_⟩
    · simp only [subscript, key]
      cases find? kvs k <;> rfl
    · rw [key, key, hother l hl]
  | _ => exact ⟨_, rfl, fun _ _ => rfl⟩

theorem key_ok {v : Dict} (h : d.key k = .ok v) (l : Str) : ∃ w, d.key l = .ok w := by
  cases d with
  | null | object => exact ⟨_, rfl⟩
  | _ => cases h

theorem find?_filter (kvs : List (Str × Dict)) (p : Str → Bool) (k : Str) :
    find? (kvs.filter fun kv => p kv.1) k = if p k then find? kvs k else none := by
  unfold find?
  rw [List.find?_filter]
  split
  · next hk =>
    congr 2
    funext kv
    by_cases hkv : kv.1 = k
    · simp [hkv, hk]
    · simp [hkv]
  · next hk =>
    rw [Option.map_eq_none_iff, List.find?_eq_none]
    rintro ⟨l, v⟩ _
    simp only [decide_eq_true_eq, not_and]
    rintro hl rfl
    exact hk hl

end Ac.Dict

namespace Acord
open Ac

/-- `jsonToAc` on its two arguments. What a move leaves behind in `in` nobody reads. -/
def jsonToAcInto (out : Ac.Frame) (d : Dict) : Except Exn Unit × Ac.Frame :=
  match d.subscript keyOp with
  | (.error e, _) => (.error e, out)
  | (.ok v, d) =>
    match v.getRefStr with
    | .error e => (.error e, out)
    | .ok op =>
      let out := { out with op := op }
      match d.subscript keyData with
      | (.error e, _) => (.error e, out)
      | (.ok data, _) => (.ok (), { out with data := data })

variable {out f : Ac.Frame} {d : Dict}

theorem jsonToAcInto_eq (out : Ac.Frame) (d : Dict) :
    jsonToAcInto out d = match jsonToAc d with
      | .ok f => (.ok (), f)
      | .error e => (.error e, out) := by
  have hne : keyData ≠ keyOp := by decide
  obtain ⟨d', hop, hkept⟩ := d.subscript_key keyOp
  obtain ⟨d'', hdata, _⟩ := d'.subscript_key keyData
  rw [hkept keyData hne] at hdata
  simp only [jsonToAcInto, jsonToAc, hop]
  cases hv : d.key keyOp with
  | error e => rfl
  | ok v =>
    obtain ⟨w, hw⟩ := Dict.key_ok hv keyData
    rw [hw] at hdata
    simp only [hdata, hw]
    cases v <;> rfl

theorem jsonToAc_ok : jsonToAc d = .ok f ↔
    ∃ kvs, d = .object kvs ∧ Dict.find? kvs keyOp = some (.str f.op) ∧
      f.data = (Dict.find? kvs keyData).getD .null := by
  obtain ⟨op, data⟩ := f
  cases d with
  | object kvs =>
    cases hop : Dict.find? kvs keyOp with
    | none => simp [jsonToAc, Dict.key, hop, Dict.getRefStr, bind, Except.bind]
    | some v =>
      cases v with
      | str op' =>
        simp [jsonToAc, Dict.key, hop, Dict.getRefStr, bind, Except.bind, pure, Except.pure,
          eq_comm]
      | _ => simp [jsonToAc, Dict.key, hop, Dict.getRefStr, bind, Except.bind]
  | _ => simp [jsonToAc, Dict.key, Dict.getRefStr, bind, Except.bind]

theorem member_acToJson (f : Ac.Frame) (k : Str) :
    (acToJson f).member k =
      if k = keyOp then some (.str f.op) else if k = keyData then some f.data else none := by
  have hne : keyOp ≠ keyData := by decide
  by_cases hop : k = keyOp
  · simp [Dict.member, acToJson, Dict.find?, hop]
  · by_cases hdata : k = keyData
    · simp [Dict.member, acToJson, Dict.find?, hdata, hne, hne.symm]
    · simp [Dict.member, acToJson, Dict.find?, hop, hdata, Ne.symm hop, Ne.symm hdata]

theorem same_reencoded (h : jsonToAc d = .ok f) :
    Dict.Same (acToJson f) ((d.subscript keyData).2.restrict [keyOp, keyData]) := by
  have hne : keyOp ≠ keyData := by decide
  obtain ⟨kvs, rfl, hop, hdata⟩ := jsonToAc_ok.mp h
  obtain ⟨kvs', hsub, hat, hother, _⟩ := Dict.subscript_object kvs keyData
  rw [hsub]
  refine ⟨⟨_, _, rfl, rfl⟩, fun k => ?_⟩
  let p := fun l : Str => [keyOp, keyData].any fun k => k = l
  show _ = Dict.find? (kvs'.filter fun kv => p kv.1) k
  rw [member_acToJson, Dict.find?_filter]
  by_cases hk : k = keyOp
  · subst hk
    have hin : p keyOp = true := by decide
    rw [if_pos rfl, if_pos hin, hother keyOp hne, hop]
  · by_cases hk' : k = keyData
    · subst hk'
      have hin : p keyData = true := by decide
      rw [if_neg hk, if_pos rfl, if_pos hin, hat, hdata]
    · have hout : ¬ p k = true := by simp [p, Ne.symm hk, Ne.symm hk']
      rw [if_neg hk, if_neg hk', if_neg hout]

structure DecodesInto (out : Ac.Frame) (d : Dict) : Prop where
  accepted : (jsonToAcInto out d).1 = .ok () ↔
    ∃ kvs op, d = .object kvs ∧ Dict.find? kvs keyOp = some (.str op)
  frame : ∀ kvs op, d = .object kvs → Dict.find? kvs keyOp = some (.str op) →
    (jsonToAcInto out d).2 = ⟨op, (Dict.find? kvs keyData).getD .null⟩
  reencoded : (jsonToAcInto out d).1 = .ok () →
    Dict.Same (acToJson (jsonToAcInto out d).2) ((d.subscript keyData).2.restrict [keyOp, keyData])
  present : (d.member keyData).isSome → (d.subscript keyData).2 = d
  rejected : (jsonToAcInto out d).1 ≠ .ok () → (jsonToAcInto out d).2 = out

theorem subscript_present {k : Str} (h : (d.member k).isSome) : (d.subscript k).2 = d := by
  cases d with
  | object kvs =>
    obtain ⟨kvs', hsub, _, _, hkept⟩ := Dict.subscript_object kvs k
    rw [hsub, hkept h]
  | _ => cases h

theorem jsonToAcInto_object {kvs : List (Str × Dict)} {op : Str} (out : Ac.Frame)
    (h : Dict.find? kvs keyOp = some (.str op)) :
    jsonToAcInto out (.object kvs) = (.ok (), ⟨op, (Dict.find? kvs keyData).getD .null⟩) := by
  have hok : jsonToAc (.object kvs) = .ok ⟨op, (Dict.find? kvs keyData).getD .null⟩ :=
    jsonToAc_ok.mpr ⟨kvs, rfl, h, rfl⟩
  rw [jsonToAcInto_eq, hok]

theorem decodes_into (out : Ac.Frame) (d : Dict) : DecodesInto out d := by
  have heq := jsonToAcInto_eq out d
  have hframe : ∀ kvs op, d = .object kvs → Dict.find? kvs keyOp = some (.str op) →
      jsonToAcInto out d = (.ok (), ⟨op, (Dict.find? kvs keyData).getD .null⟩) := by
    rintro kvs op rfl hop
    exact jsonToAcInto_object out hop
  refine ⟨⟨fun h => ?_, ?_⟩, ?_, fun h => ?_, subscript_present, fun h => ?_⟩
  · cases hd : jsonToAc d with
    | ok f =>
      obtain ⟨kvs, hkvs, hop, _⟩ := jsonToAc_ok.mp hd
      exact ⟨kvs, f.op, hkvs, hop⟩
    | error e =>
      rw [heq, hd] at h
      cases h
  · rintro ⟨kvs, op, hkvs, hop⟩
    rw [hframe kvs op hkvs hop]
  · intro kvs op hkvs hop
    rw [hframe kvs op hkvs hop]
  · cases hd : jsonToAc d with
    | ok f =>
      rw [heq, hd]
      exact same_reencoded hd
    | error e =>
      rw [heq, hd] at h
      cases h
  · cases hd : jsonToAc d with
    | ok f =>
      rw [heq, hd] at h
      exact absurd rfl h
    | error e => rw [heq, hd]

/-! A frame through the encoder of one session and the decoder of another. -/

structure DictLib.Undoes (lib : DictLib) (d : Dict) : Prop where
  cbor : ∃ b, lib.toCbor d = .ok b ∧ lib.fromCbor b = .ok d
  json : d.utf8 → d.plain → ∃ s, lib.dump d = .ok s ∧ s ≠ [] ∧ lib.parse s = .ok d

/-- The buffer that `cvt` fills with `f` goes out as a message of its kind, and whatever session
receives that message hands `f` on to its dispatch. -/
structure Delivers (lib : DictLib) (cvt : FrameCvt) (f : Ac.Frame) (buf : Frame) : Prop where
  encoded : cvt.fromAcFrame .fresh f = .ok buf
  sent : ∀ s : CommonWsSession, s.sending = some buf → s.doSend = s.wsSend buf.message
  decoded : decode lib buf.message = .ok f
  received : ∀ s : CommonWsSession, s.received lib buf.message =
    CommonWsSession.tryWriteToDispatch { s with receiving := some f }

variable {lib : DictLib} {cvt : FrameCvt} {buf : Frame}

theorem delivers (he : cvt.fromAcFrame .fresh f = .ok buf)
    (hd : decode lib buf.message = .ok f) : Delivers lib cvt f buf := by
  refine ⟨he, fun s hs => s.doSend_some hs, hd, fun s => ?_⟩
  simp only [CommonWsSession.received, hd]

theorem delivers_cbor (h : lib.Undoes (acToJson f)) :
    ∃ b, Delivers lib (.cbor lib) f ⟨[], b⟩ := by
  obtain ⟨b, hto, hfrom⟩ := h.cbor
  refine ⟨b, delivers (cbor_fromAcFrame hto) ?_⟩
  show FrameCvt.cborBufToAc lib b = .ok f
  simp only [FrameCvt.cborBufToAc, hfrom, bind, Except.bind, jsonToAc_acToJson]

theorem acToJson_utf8 (hop : validUtf8 f.op) (hdata : f.data.utf8) : (acToJson f).utf8 := by
  have hkeys : validUtf8 keyOp ∧ validUtf8 keyData := by decide
  simp [acToJson, Dict.utf8, Dict.utf8Members, hkeys, hop, hdata]

theorem acToJson_plain (hdata : f.data.plain) : (acToJson f).plain := by
  simp [acToJson, Dict.plain, Dict.plainMembers, hdata]

theorem json_fromAcFrame {t : Str} (h : lib.dump (acToJson f) = .ok t) :
    (FrameCvt.json lib).fromAcFrame .fresh f = .ok ⟨t, []⟩ := by
  simp [FrameCvt.json, FrameCvt.jsonFrameFromAc, FrameCvt.jsonBufFromAc, h, Frame.fresh, bind,
    Except.bind, pure, Except.pure]

theorem delivers_json (h : lib.Undoes (acToJson f)) (hop : validUtf8 f.op) (hutf8 : f.data.utf8)
    (hplain : f.data.plain) :
    ∃ t, t ≠ [] ∧ Delivers lib (.json lib) f ⟨t, []⟩ := by
  obtain ⟨t, hdump, hne, hparse⟩ := h.json (acToJson_utf8 hop hutf8) (acToJson_plain hplain)
  refine ⟨t, hne, delivers (json_fromAcFrame hdump) ?_⟩
  -- `doSend` takes the buffer for text because a dump is never empty
  have hmessage : Frame.message ⟨t, []⟩ = .text t := if_pos (by simp [Frame.text, hne])
  rw [hmessage]
  show FrameCvt.jsonBufToAc lib t = .ok f
  simp only [FrameCvt.jsonBufToAc, hparse, bind, Except.bind, jsonToAc_acToJson]

theorem wsOpened_cvt (lib : DictLib) (target : Str) (s : CommonWsSession) :
    (CommonWsSession.wsOpened lib target s).cvt =
      if target = lit "/cbor" then .cbor lib else .json lib := rfl

/-- Encoded in either mode, a frame is decoded again by the kind of the message it goes out as,
and a dictionary is decoded just if it is an object whose "op" is a string, to the frame that
encodes as it does but for further keys. -/
theorem codec_round_trip (lib : DictLib) :
    (∀ f, lib.Undoes (acToJson f) → ∀ (target : Str) (s : CommonWsSession),
      (target = lit "/cbor" →
        ∃ b, Delivers lib (s.wsOpened lib target).cvt f ⟨[], b⟩) ∧
      (target ≠ lit "/cbor" → validUtf8 f.op → f.data.utf8 → f.data.plain →
        ∃ t, t ≠ [] ∧ Delivers lib (s.wsOpened lib target).cvt f ⟨t, []⟩)) ∧
    ∀ out d, DecodesInto out d := by
  refine ⟨fun f h target s => ⟨fun ht => ?_, fun ht hop hutf8 hplain => ?_⟩, decodes_into⟩
  · rw [wsOpened_cvt, if_pos ht]
    exact delivers_cbor h
  · rw [wsOpened_cvt, if_neg ht]
    exact delivers_json h hop hutf8 hplain

def blobFrame : Ac.Frame :=
  ⟨lit "some op", .object
    [(lit "key1", .str (lit "value1")), (lit "key2", .integer 42), (lit "blob", .blob [1, 2, 3])]⟩

def blobCbor : List UInt8 :=
  [0xA2, 0x64, 0x64, 0x61, 0x74, 0x61, 0xA3, 0x64, 0x62, 0x6C, 0x6F, 0x62, 0x43, 0x01, 0x02, 0x03,
    0x64, 0x6B, 0x65, 0x79, 0x31, 0x66, 0x76, 0x61, 0x6C, 0x75, 0x65, 0x31, 0x64, 0x6B, 0x65, 0x79,
    0x32, 0x18, 0x2A, 0x62, 0x6F, 0x70, 0x67, 0x73, 0x6F, 0x6D, 0x65, 0x20, 0x6F, 0x70]

def blobLib : DictLib where
  parse _ := .error (.error (lit "parse_error.101"))
  dump _ := .error (.error (lit "type_error.316"))
  fromCbor b :=
    if b = blobCbor then .ok (acToJson blobFrame) else .error (.error (lit "parse_error.110"))
  toCbor _ := .ok blobCbor

theorem blobLib_undoes : blobLib.Undoes (acToJson blobFrame) :=
  ⟨⟨blobCbor, rfl, rfl⟩, fun _ h => absurd h (by decide)⟩

theorem sampleLib_undoes : sampleLib.Undoes (acToJson hiFrame) :=
  ⟨sampleLib_inverts, fun _ _ => ⟨hiJson, rfl, by decide, rfl⟩⟩

theorem codec_round_trip_blob :
    (∃ b, Delivers blobLib (.cbor blobLib) blobFrame ⟨[], b⟩) ∧
    (∃ t, t ≠ [] ∧ Delivers sampleLib (.json sampleLib) hiFrame ⟨t, []⟩) ∧
    DecodesInto hiFrame (.object [(keyOp, .str (lit "x")), (lit "y", .null)]) := by
  let s := CommonWsSession.unopened (.create 1) (.create 1)
  have hcbor := (codec_round_trip blobLib).1 blobFrame blobLib_undoes (lit "/cbor") s
  have hjson := (codec_round_trip sampleLib).1 hiFrame sampleLib_undoes (lit "/") s
  exact ⟨hcbor.1 rfl, hjson.2 (by decide) rfl rfl rfl, (codec_round_trip sampleLib).2 _ _⟩

end Acord
