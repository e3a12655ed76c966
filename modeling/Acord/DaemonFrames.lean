import Acord.Daemon

/-! What a client reads of the daemon, in any interleaving: the state of the coroutine and its
replies to the requests the client wrote, in order, and then what the provider wrote. -/

namespace Acord
open Ac Channels RequestLoop Transition

variable {lib : DictLib} {sch : SchemaLib} {w w' : LocalEnv} {mid : List (LocalEvent sch)}
  {q : LocalProg Bool} {f : Ac.Frame} {s : Server localEffects Exn LocalEnv} {d d' : Daemon sch}
  {tr : List (DaemonEvent sch)}

structure DaemonInv (d : Daemon sch) : Prop where
  session : (localSession sch).Run d.log d.session
  attached : d.attached = true ↔ Attached d.log
  before : d.attached = false → d.providerRead = [] ∧ d.providerWrote = []
  read : d.server.writeStream.popped = polledFrames d.log ++ d.providerRead
  sent : d.server.readStream.pushed = accepted d.log ++ d.providerWrote

theorem daemon_inv (h : (daemon lib sch).Run tr d) : DaemonInv d := by
  obtain ⟨hsession, hattached, hbefore, hread, hsent⟩ := server_inv (daemon_server h)
  exact ⟨hsession, hattached, hbefore, hread, hsent⟩

def Daemon.Inverts (lib : DictLib) (d : Daemon sch) : Prop :=
  (∀ f ∈ d.client.readStream.pushed, CborInverts lib f) ∧
    ∀ f ∈ d.server.readStream.pushed, CborInverts lib f

/-- What the client has read so far is the state of the coroutine, the replies to `xs` and
`last`, up to some frame of these. -/
def Daemon.Told (d : Daemon sch) (xs : List (Exchange sch)) (last : List Ac.Frame) : Prop :=
  d.client.writeStream.popped <+: sch.stateChange Schema.id :: xs.map Exchange.reply ++ last

theorem daemon_told (h : (daemon lib sch).Run tr d) (hinv : d.Inverts lib) :
    ∃ (xs : List (Exchange sch)) (pending : Option Ac.Frame),
      (xs = [] ∨ ∃ rest, d.log = startEvents sch ++ xs.flatMap Exchange.events ++ rest) ∧
      polledFrames d.log = xs.map Exchange.request ++ pending.toList ∧
      xs.map Exchange.request ++ pending.toList ++ d.providerRead <+: d.client.readStream.pushed ∧
      ((d.attached = false ∧ d.Told xs []) ∨
        ∃ f, pending = some f ∧ f.op = Schema.opLoadProvider ∧
          d.Told xs (loadedFrame :: d.providerWrote)) := by
  obtain ⟨hup, hdown⟩ := daemon_links h
  have hi := daemon_inv h
  have hpolled := hup.fifo hinv.1
  have htold := hdown.fifo hinv.2
  obtain ⟨xs, pending, hin, hpol, hacc⟩ := session_frames hi.session
  rw [hi.read, hpol] at hpolled
  rw [hi.sent] at htold
  refine ⟨xs, pending, hin, hpol, hpolled, ?_⟩
  rcases hacc with ⟨hno, hpre⟩ | ⟨f, hf, hop, heq⟩
  · have hfree : d.attached = false := by
      by_contra ha
      exact hno (hi.attached.mp (by simpa using ha))
    obtain ⟨_, hwrote⟩ := hi.before hfree
    rw [hwrote, List.append_nil] at htold
    left
    refine ⟨hfree, htold.trans ?_⟩
    rw [List.append_nil]
    exact hpre
  · right
    rw [heq, List.append_assoc, List.singleton_append] at htold
    exact ⟨f, hf, hop, htold⟩

/-- In every run of the daemon, whatever the order of its steps: what the coroutine polled and a
provider read after it are the first frames the client wrote; all of what was polled but the
frame still being worked on was answered, by one right reply each; and the client has read the
state of the coroutine, these replies in their order and nothing else, unless the frame being
worked on asked for a provider: then it was told that this is loaded and reads what the provider
writes. -/
theorem daemon_conversation (h : (daemon lib sch).Run tr d) (hinv : d.Inverts lib) :
    ∃ (xs : List (Exchange sch)) (pending : Option Ac.Frame),
      xs.flatMap Exchange.events <:+: d.log ∧
      polledFrames d.log = xs.map Exchange.request ++ pending.toList ∧
      xs.map Exchange.request ++ pending.toList ++ d.providerRead <+: d.client.readStream.pushed ∧
      ((d.attached = false ∧ d.Told xs []) ∨
        ∃ f, pending = some f ∧ f.op = Schema.opLoadProvider ∧
          d.Told xs (loadedFrame :: d.providerWrote)) := by
  obtain ⟨xs, pending, hin, hpol, hpolled, htold⟩ := daemon_told h hinv
  refine ⟨xs, pending, ?_, hpol, hpolled, htold⟩
  rcases hin with rfl | ⟨rest, hlog⟩
  · exact List.nil_infix
  · exact ⟨startEvents sch, rest, hlog.symm⟩

structure Daemon.Resting (d : Daemon sch) : Prop where
  client : d.client.Idle
  server : d.server.Idle
  up : d.client.wsSent.length = d.server.wsGot.length
  down : d.server.wsSent.length = d.client.wsGot.length
  session : d.session = ⟨.ret true, ⟨false, false⟩⟩
  polled : d.server.writeStream.buf = []
  live : d.server.writeStream.closed = false

def shortText (s : Str) : List UInt8 := UInt8.ofNat (0x60 + s.length) :: s

def frameCbor (f : Ac.Frame) : List UInt8 :=
  let data := match f.data with
    | .str s => shortText s
    | _ => [0xF6]
  0xA2 :: shortText keyData ++ data ++ shortText keyOp ++ shortText f.op

def talkLib : DictLib where
  parse := sampleLib.parse
  dump := sampleLib.dump
  toCbor
    | .object [(_, .str op), (_, data)] => .ok (frameCbor ⟨op, data⟩)
    | _ => .error (.error (lit "type_error.317"))
  fromCbor b :=
    match [hiFrame, stateFrame, unknownOp hiFrame.op].find? fun f => frameCbor f == b with
    | some f => .ok (acToJson f)
    | none => .error (.error (lit "parse_error.110"))

theorem talkLib_inverts : ∀ f ∈ [hiFrame, stateFrame, unknownOp hiFrame.op],
    CborInverts talkLib f := by
  intro f hf
  refine ⟨frameCbor f, rfl, ?_⟩
  simp only [List.mem_cons, List.not_mem_nil, or_false] at hf
  rcases hf with rfl | rfl | rfl <;> rfl

def greeted : Daemon sampleSchema where
  client := clientWsOpened talkLib (lit "/cbor") (.create 10) (.create 10)
  server := serverWsOpened talkLib (lit "/cbor") (greetingStream sampleSchema) (.create serverCap)
  session := ⟨.ret true, ⟨false, false⟩⟩
  attached := false
  log := startEvents sampleSchema
  providerRead := []
  providerWrote := []

theorem daemon_talked : ∃ tr d, (daemon talkLib sampleSchema).Run tr d ∧ d.Inverts talkLib ∧
    d.client.readStream.pushed = [hiFrame] ∧
    d.client.writeStream.popped = [stateFrame, unknownOp hiFrame.op] ∧
    d.Resting ∧ (d.client.readStream.closed = false ∧ d.client.writeStream.closed = false) ∧
    polledFrames d.log = [hiFrame] := by
  have h0 : (daemon talkLib sampleSchema).init greeted := .greeted (unused_create 10 10)
  have h1 := (System.Run.start h0).next
    (a := DaemonEvent.client (.push hiFrame)) (.client (.push rfl (by decide)) nofun)
  have h2 := h1.next (a := DaemonEvent.client .fireRead)
    (.client (.fireRead ⟨by decide, .inr (by simp)⟩) nofun)
  have h3 := h2.next (a := DaemonEvent.client .readTask) (.client (.readTask (by decide)) nofun)
  have h4 := h3.next (a := DaemonEvent.client (.wsReceived (.binary (frameCbor stateFrame))))
    (.client (.wsReceived (by decide)) fun m hm => by cases hm; rfl)
  have h5 := h4.next (a := DaemonEvent.client (.pop stateFrame)) (.client (.pop (Eq.refl [_])) nofun)
  have h6 := h5.next (a := DaemonEvent.server (.wsReceived (.binary hiCbor)))
    (.server (.wsReceived (by decide)) (fun m hm => by cases hm; rfl) id)
  have h7 := h6.next (a := DaemonEvent.session (.request (Polled.frame hiFrame)))
    (.session (Loop.Step.request (L := acordRun sampleSchema) (r := Polled.frame hiFrame) rfl)
      (.polled (Eq.refl [_])))
  have h8 := h7.next (a := DaemonEvent.session (.call (.push (unknownOp hiFrame.op)) Pushed.ok))
    (.session (.call ⟨rfl, rfl⟩) (.pushed rfl (by decide)))
  have h9 := h8.next (a := DaemonEvent.server .wsCompletedSend)
    (.server (.wsCompletedSend (by decide)) nofun id)
  have h10 := h9.next
    (a := DaemonEvent.client (.wsReceived (.binary (frameCbor (unknownOp hiFrame.op)))))
    (.client (.wsReceived (by decide)) fun m hm => by cases hm; rfl)
  have h11 := h10.next (a := DaemonEvent.client (.pop (unknownOp hiFrame.op)))
    (.client (.pop (Eq.refl [_])) nofun)
  have h12 := h11.next (a := DaemonEvent.client .wsCompletedSend)
    (.client (.wsCompletedSend (by decide)) nofun)
  have h13 := h12.next (a := DaemonEvent.server .wsCompletedSend)
    (.server (.wsCompletedSend (by decide)) nofun id)
  have hup : ∀ f ∈ [hiFrame], CborInverts talkLib f :=
    fun f hf => talkLib_inverts f (List.mem_cons.mpr (.inl (List.mem_singleton.mp hf)))
  have hdown : ∀ f ∈ [stateFrame, unknownOp hiFrame.op], CborInverts talkLib f :=
    fun f hf => talkLib_inverts f (List.mem_cons_of_mem _ hf)
  exact ⟨_, _, h13, ⟨hup, hdown⟩, rfl, rfl, ⟨.of_counts rfl rfl rfl rfl rfl rfl,
    .of_counts rfl rfl rfl rfl rfl rfl, rfl, rfl, rfl, rfl, rfl⟩, ⟨rfl, rfl⟩, rfl⟩

theorem daemon_conversation_hi : ∃ d : Daemon sampleSchema,
    d.client.writeStream.popped = [stateFrame, unknownOp hiFrame.op] ∧
    ∃ x : Exchange sampleSchema, x.events <:+: d.log ∧ x.request = hiFrame ∧
      x.reply = unknownOp hiFrame.op := by
  obtain ⟨_, d, h, hinv, _, hread, _, _, hone⟩ := daemon_talked
  obtain ⟨xs, pending, hlog, hpol, _, htold⟩ := daemon_conversation h hinv
  rw [hone] at hpol
  have hne : xs ≠ [] := by
    rintro rfl
    rcases htold with ⟨_, htold⟩ | ⟨f, rfl, hop, _⟩
    · -- the client has read more than the state
      unfold Daemon.Told at htold
      rw [hread] at htold
      exact absurd htold.length_le (by decide)
    · obtain rfl := List.head_eq_of_cons_eq hpol
      exact absurd hop (by decide)
  obtain ⟨x, rfl, _, hx⟩ := one_exchange hne hpol
  have hreply := x.right.unknown (hx ▸ by decide) (hx ▸ by decide)
  rw [List.flatMap_singleton] at hlog
  exact ⟨d, hread, x, hlog, hx, hx ▸ hreply⟩

end Acord
