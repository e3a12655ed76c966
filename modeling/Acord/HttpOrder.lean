import Acord.GetSyncBody
import Acord.Lib.Typestate

/-! The calls that `get_sync` makes of the network, from its first request to the last chunk that is
asked for: the protocol of a client that requests one thing on each connection. -/

namespace Acord
open Ac RequestLoop Iteration Transition

inductive HttpPhase (lib : HttpLib)
  | fresh (url : Str)
  | found (url : Str) (resolved : lib.Resolved)
  | connected (url : Str) (conn : lib.Conn)
  | secured (url : Str) (conn : lib.Conn)
  | asked (url : Str) (conn : lib.Conn)
  | body (conn : lib.Conn) (buf : List UInt8) (parser : lib.Parser)
  | broken

namespace HttpPhase
variable {lib : HttpLib} {α : Type}

def orBroken (f : α → HttpPhase lib) : Except Exn α → HttpPhase lib
  | .ok a => f a
  | .error _ => .broken

def answered (url : Str) (conn : lib.Conn) (buf : List UInt8) (parser : lib.Parser) :
    HttpPhase lib :=
  match lib.location parser with
  | some loc => .fresh (redirectUrl (lib.fromUri url) loc)
  | none => if lib.result parser = 200 then .body conn buf parser else .broken

def afterRead (conn : lib.Conn) (r : ReadResult lib) : HttpPhase lib :=
  match r.ec with
  | some (.other _) => .broken
  | _ => .body conn r.buf r.parser

end HttpPhase

variable {lib : HttpLib} {S : Type}

/-- A request is written in the clear for `http` only, and after the handshake for `https`; its
header is read into an empty buffer, and the body from what each read leaves for the next. -/
inductive HttpStep : HttpPhase lib → Call (httpEffects lib) → HttpPhase lib → Prop
  | resolve {url : Str} (r : Except Exn lib.Resolved) :
      HttpStep (.fresh url)
        ⟨HttpOp.resolve (lib.fromUri url).authority (lib.fromUri url).scheme, r⟩
        (.orBroken (.found url) r)
  | connect {url : Str} {resolved : lib.Resolved} (r : Except Exn lib.Conn) :
      HttpStep (.found url resolved) ⟨HttpOp.connect resolved, r⟩ (.orBroken (.connected url) r)
  | handshake {url : Str} {conn : lib.Conn} (h : (lib.fromUri url).scheme = lit "https")
      (r : Except Exn Unit) :
      HttpStep (.connected url conn) ⟨HttpOp.handshake conn (cStr (lib.fromUri url).authority), r⟩
        (.orBroken (fun _ => .secured url conn) r)
  | writePlain {url : Str} {conn : lib.Conn} (h : (lib.fromUri url).scheme = lit "http")
      (r : Except Exn Unit) :
      HttpStep (.connected url conn) ⟨HttpOp.write conn (getRequest (lib.fromUri url)), r⟩
        (.orBroken (fun _ => .asked url conn) r)
  | writeSecured {url : Str} {conn : lib.Conn} (r : Except Exn Unit) :
      HttpStep (.secured url conn) ⟨HttpOp.write conn (getRequest (lib.fromUri url)), r⟩
        (.orBroken (fun _ => .asked url conn) r)
  | readHeader {url : Str} {conn : lib.Conn} (r : Except Exn (List UInt8 × lib.Parser)) :
      HttpStep (.asked url conn) ⟨HttpOp.readHeader conn [], r⟩
        (.orBroken (fun a => .answered url conn a.1 a.2) r)
  | read {conn : lib.Conn} {buf : List UInt8} {parser : lib.Parser} (size : Nat)
      (h : lib.isDone parser = false) (r : ReadResult lib) :
      HttpStep (.body conn buf parser) ⟨HttpOp.read conn buf parser size, r⟩ (.afterRead conn r)

def httpClient (lib : HttpLib) (url : Str) :
    System (HttpPhase lib) (Call (httpEffects lib)) where
  init ph := ph = .fresh url
  step := HttpStep

variable (net : Str → HttpWorld lib S)

def Body.readCall (b : Body lib S) (size : Nat) : Call (httpEffects lib) :=
  let op := HttpOp.read b.stream.conn b.buf b.parser size
  ⟨op, ((net b.url).answer b.world op).1⟩

def readCalls : List (List UInt8) → Resumed (Body lib S) → List (Call (httpEffects lib))
  | buffer :: rest, .awaiting b =>
    b.readCall net buffer.length :: readCalls rest (b.resume net buffer).2
  | _, _ => []

def requestCalls : Nat → Requesting S → List (Call (httpEffects lib))
  | 0, _ => []
  | n + 1, q =>
    (hopRun net q).calls ++
      match hopStep net q with
      | .inl q' => requestCalls n q'
      | .inr _ => []

def getSyncCalls (n : Nat) (url : Str) (world : S) (buffers : List (List UInt8)) :
    List (Call (httpEffects lib)) :=
  requestCalls net n ⟨url, [], world⟩ ++
    match iter (hopStep net) n ⟨url, [], world⟩ with
    | .inr (.ret b) => readCalls net buffers b.loop
    | _ => []

/-! `get_sync` keeps to the protocol. -/

section
variable {net} {url : Str} {q : Requesting S}

def Hop.phase : Hop lib → HttpPhase lib
  | .redirect url _ => .fresh url
  | .response stream buf parser => .body stream.conn buf parser

variable {start : Str}

theorem obeys_call {ph : HttpPhase lib} {α : Type} {f : α → HttpPhase lib} (op : HttpOp lib)
    (k : op.Res → Except Exn α) {R : α → HttpPhase lib → Prop}
    (hstep : ∀ r : op.Res, HttpStep ph ⟨op, r⟩ (.orBroken f (k r))) (hret : ∀ a, R a (f a)) :
    Prog.Obeys (httpClient lib start) (.call op fun r => .ofExcept (k r)) ph R := by
  intro r
  refine ⟨.orBroken f (k r), hstep r, ?_⟩
  show Prog.Obeys (httpClient lib start) (.ofExcept (k r)) (.orBroken f (k r)) R
  cases k r with
  | error e => trivial
  | ok a => exact hret a

theorem openStream_obeys (url : Str) :
    (openStream lib (lib.fromUri url)).Obeys (httpClient lib start) (.fresh url)
      fun stream ph => ph = .connected url stream.conn ∧
        (lib.fromUri url).scheme = if stream.ssl then lit "https" else lit "http" := by
  have hresolve : Prog.Obeys (httpClient lib start)
      (resolve lib (lib.fromUri url).authority (lib.fromUri url).scheme) (.fresh url)
      fun resolved ph => ph = .found url resolved :=
    obeys_call (.resolve _ _) (fun r => r) .resolve fun _ => rfl
  refine hresolve.bind ?_
  rintro resolved _ rfl
  have hconnect : Prog.Obeys (httpClient lib start) (connect lib resolved) (.found url resolved)
      fun conn ph => ph = .connected url conn :=
    obeys_call (.connect resolved) (fun r => r) .connect fun _ => rfl
  refine hconnect.bind ?_
  rintro conn _ rfl
  split
  · next hhttp => exact ⟨rfl, hhttp⟩
  · split
    · next hhttps => exact ⟨rfl, hhttps.2⟩
    · trivial

theorem write_obeys {stream : HttpStream lib} {ph : HttpPhase lib} (url : Str)
    (h : ∀ r, HttpStep ph ⟨HttpOp.write stream.conn (getRequest (lib.fromUri url)), r⟩
      (.orBroken (fun _ => .asked url stream.conn) r)) :
    (stream.write (getRequest (lib.fromUri url))).Obeys (httpClient lib start) ph
      fun _ ph => ph = .asked url stream.conn :=
  obeys_call (.write _ _) (fun r => r) h fun _ => rfl

theorem sendRequest_obeys (url : Str) :
    (sendRequest lib url).Obeys (httpClient lib start) (.fresh url)
      fun stream ph => ph = .asked url stream.conn := by
  refine (openStream_obeys url).bind ?_
  rintro ⟨conn, ssl⟩ _ ⟨rfl, hscheme⟩
  cases ssl with
  | false =>
    refine (write_obeys url (HttpStep.writePlain hscheme)).bind ?_
    rintro _ _ rfl
    rfl
  | true =>
    have hhandshake : Prog.Obeys (httpClient lib start)
        (HttpStream.handshake ⟨conn, true⟩ (lib.fromUri url).authority) (.connected url conn)
        fun _ ph => ph = .secured url conn :=
      obeys_call (.handshake _ _) (fun r => r) (.handshake hscheme) fun _ => rfl
    refine hhandshake.bind ?_
    rintro _ _ rfl
    refine (write_obeys url HttpStep.writeSecured).bind ?_
    rintro _ _ rfl
    rfl

theorem hop_obeys (buf : List UInt8) (url : Str) :
    (hop lib buf url).Obeys (httpClient lib start) (.fresh url) fun hop ph => ph = hop.phase := by
  refine (sendRequest_obeys url).bind ?_
  rintro stream _ rfl
  have hheader : Prog.Obeys (httpClient lib start) (stream.readHeader (clear buf))
      (.asked url stream.conn) fun r ph => ph = .answered url stream.conn r.1 r.2 :=
    obeys_call (.readHeader _ _) (fun r => r) .readHeader fun _ => rfl
  refine hheader.bind ?_
  rintro ⟨buf, parser⟩ _ rfl
  unfold HttpPhase.answered
  dsimp only
  cases hloc : lib.location parser with
  | some loc => rfl
  | none =>
    dsimp only
    split
    · trivial
    · next hok =>
      rw [if_pos (not_not.mp hok)]
      rfl

theorem hop_run (net : Str → HttpWorld lib S) (start : Str) (q : Requesting S) :
    ∃ ph, ((httpClient lib start).after (.fresh q.url)).Run (hopRun net q).calls ph ∧
      ∀ hop, (hopRun net q).outcome = .ret hop → ph = hop.phase :=
  (hop_obeys q.buf q.url).run (net q.url) q.world

theorem requestCalls_run (net : Str → HttpWorld lib S) (start : Str) (n : Nat)
    (q : Requesting S) :
    ∃ ph, ((httpClient lib start).after (.fresh q.url)).Run (requestCalls net n q) ph ∧
      ∀ b, iter (hopStep net) n q = .inr (.ret b) → ph = .body b.stream.conn b.buf b.parser := by
  induction n generalizing q with
  | zero => exact ⟨_, .start rfl, fun b hb => by cases hb⟩
  | succ n ih =>
    obtain ⟨ph, hrun, hphase⟩ := hop_run net start q
    unfold requestCalls iter
    cases hout : (hopRun net q).outcome with
    | throw e =>
      have hstep : hopStep net q = .inr (.throw e) := by simp only [hopStep, hout]
      rw [hstep, List.append_nil]
      exact ⟨ph, hrun, fun b hb => by cases hb⟩
    | crash =>
      have hstep : hopStep net q = .inr .crash := by simp only [hopStep, hout]
      rw [hstep, List.append_nil]
      exact ⟨ph, hrun, fun b hb => by cases hb⟩
    | ret hop =>
      obtain rfl := hphase hop hout
      cases hop with
      | response stream buf parser =>
        have hstep : hopStep net q =
            .inr (.ret ⟨q.url, stream, buf, parser, (hopRun net q).world⟩) := by
          simp only [hopStep, hout]
        rw [hstep, List.append_nil]
        refine ⟨_, hrun, fun b hb => ?_⟩
        obtain rfl := Outcome.ret.inj (Sum.inr.inj hb)
        rfl
      | redirect url buf =>
        have hstep : hopStep net q = .inl ⟨url, buf, (hopRun net q).world⟩ := by
          simp only [hopStep, hout]
        rw [hstep]
        obtain ⟨ph, hrest, hbody⟩ := ih ⟨url, buf, (hopRun net q).world⟩
        exact ⟨ph, hrun.append hrest, hbody⟩

@[simp] theorem readCalls_returned (buffers : List (List UInt8)) :
    readCalls net buffers .returned = [] := by
  cases buffers <;> rfl

@[simp] theorem readCalls_threw (buffers : List (List UInt8)) (e : Exn) :
    readCalls net buffers (.threw e) = [] := by
  cases buffers <;> rfl

theorem readCalls_run (net : Str → HttpWorld lib S) (start : Str) (buffers : List (List UInt8))
    (b : Body lib S) :
    ∃ ph, ((httpClient lib start).after (.body b.stream.conn b.buf b.parser)).Run
      (readCalls net buffers b.loop) ph := by
  induction buffers generalizing b with
  | nil => exact ⟨_, .start rfl⟩
  | cons buffer rest ih =>
    unfold Body.loop
    cases hdone : lib.isDone b.parser with
    | true =>
      rw [if_pos rfl, readCalls_returned]
      exact ⟨_, .start rfl⟩
    | false =>
      simp only [Bool.false_eq_true, if_false, readCalls]
      have hread : ((httpClient lib start).after (.body b.stream.conn b.buf b.parser)).Run
          [b.readCall net buffer.length]
          (.afterRead b.stream.conn ((net b.url).answer b.world
            (.read b.stream.conn b.buf b.parser buffer.length)).1) :=
        System.Run.next (.start rfl) (HttpStep.read _ hdone _)
      refine Exists.imp (fun ph hrest => hread.append hrest) ?_
      unfold Body.resume HttpPhase.afterRead
      cases (net b.url).answer b.world (.read b.stream.conn b.buf b.parser buffer.length) with
      | mk r w =>
        dsimp only
        cases r.ec with
        | none => exact ih { b with buf := r.buf, parser := r.parser, world := w }
        | some ec =>
          cases ec with
          | needBuffer => exact ih { b with buf := r.buf, parser := r.parser, world := w }
          | other e =>
            rw [readCalls_threw]
            exact ⟨_, .start rfl⟩

theorem getSyncCalls_run (net : Str → HttpWorld lib S) (n : Nat) (url : Str) (world : S)
    (buffers : List (List UInt8)) :
    ∃ ph, (httpClient lib url).Run (getSyncCalls net n url world buffers) ph := by
  obtain ⟨ph, hrun, hbody⟩ := requestCalls_run net url n ⟨url, [], world⟩
  have hrun' : (httpClient lib url).Run (requestCalls net n ⟨url, [], world⟩) ph := hrun
  unfold getSyncCalls
  split
  · next b hb =>
    obtain rfl := hbody b hb
    obtain ⟨ph, hreads⟩ := readCalls_run net url buffers b
    exact ⟨ph, hrun'.append hreads⟩
  · exact ⟨ph, (List.append_nil _).symm ▸ hrun'⟩

/-! What the protocol comes to. -/

namespace HttpOp

def Failed : (op : HttpOp lib) → op.Res → Prop
  | .resolve _ _, r => ∃ e, r = .error e
  | .connect _, r => ∃ e, r = .error e
  | .handshake _ _, r => ∃ e, r = .error e
  | .write _ _, r => ∃ e, r = .error e
  | .readHeader _ _, r => (∃ e, r = .error e) ∨
      ∃ buf parser, r = .ok (buf, parser) ∧ lib.location parser = none ∧ lib.result parser ≠ 200
  | .read _ _ _ _, r => ∃ e, r.ec = some (.other e)

def rank : HttpOp lib → Nat
  | .connect _ => 0
  | .handshake _ _ => 1
  | .write _ _ => 2
  | .readHeader _ _ => 3
  | .read _ _ _ _ => 4
  | .resolve _ _ => 5

def Before (x y : HttpOp lib) : Prop := x.rank < y.rank ∨ x.rank = 4 ∧ y.rank = 4

def On (conn : lib.Conn) : HttpOp lib → Prop
  | .resolve _ _ | .connect _ => True
  | .handshake c _ | .write c _ | .readHeader c _ | .read c _ _ _ => c = conn

end HttpOp

def IsConnect (call : Call (httpEffects lib)) : Prop := HttpOp.rank call.op = 0

namespace HttpPhase

def rank : HttpPhase lib → Nat
  | connected _ _ => 0
  | secured _ _ => 1
  | asked _ _ => 2
  | body _ _ _ | fresh _ => 4
  | found _ _ | broken => 5

def On (conn : lib.Conn) : HttpPhase lib → Prop
  | connected _ c | secured _ c | asked _ c | body c _ _ => c = conn
  | _ => True

end HttpPhase

section
variable {ph ph' : HttpPhase lib} {call : Call (httpEffects lib)} {conn : lib.Conn}

theorem HttpStep.failed (h : HttpStep ph call ph') (hf : HttpOp.Failed call.op call.res) :
    ph' = .broken := by
  cases h with
  | read size hdone r =>
    obtain ⟨e, he⟩ := hf
    unfold HttpPhase.afterRead
    rw [he]
  | readHeader r =>
    rcases hf with ⟨e, rfl⟩ | ⟨buf, parser, rfl, hloc, hbad⟩
    · rfl
    · unfold HttpPhase.orBroken HttpPhase.answered
      dsimp only
      rw [hloc]
      exact if_neg hbad
  | _ =>
    obtain ⟨e, rfl⟩ := hf
    rfl

theorem HttpPhase.orBroken_reaches {α : Type} {f : α → HttpPhase lib} (n : Nat) (hn : n ≤ 5)
    (hrank : ∀ a, n ≤ (f a).rank) (hon : ∀ a, (f a).On conn) (r : Except Exn α) :
    n ≤ (HttpPhase.orBroken f r).rank ∧ (HttpPhase.orBroken f r).On conn := by
  cases r with
  | error e => exact ⟨hn, trivial⟩
  | ok a => exact ⟨hrank a, hon a⟩

theorem HttpPhase.answered_reaches (url : Str) (buf : List UInt8) (parser : lib.Parser) :
    3 ≤ (HttpPhase.answered url conn buf parser).rank ∧
      (HttpPhase.answered url conn buf parser).On conn := by
  unfold HttpPhase.answered
  cases lib.location parser with
  | some loc => exact ⟨(by decide : 3 ≤ 4), trivial⟩
  | none =>
    dsimp only
    split
    · exact ⟨(by decide : 3 ≤ 4), rfl⟩
    · exact ⟨(by decide : 3 ≤ 5), trivial⟩

theorem HttpPhase.afterRead_reaches (r : ReadResult lib) :
    4 ≤ (HttpPhase.afterRead conn r).rank ∧ (HttpPhase.afterRead conn r).On conn := by
  unfold HttpPhase.afterRead
  split
  · exact ⟨(by decide : 4 ≤ 5), trivial⟩
  · exact ⟨Nat.le_refl 4, rfl⟩

theorem HttpStep.ordered (h : HttpStep ph call ph') (hc : ¬ IsConnect call) (hon : ph.On conn) :
    (ph.rank < HttpOp.rank call.op ∨ ph.rank = 4 ∧ HttpOp.rank call.op = 4) ∧
      HttpOp.On conn call.op ∧ HttpOp.rank call.op ≤ ph'.rank ∧ ph'.On conn := by
  cases h with
  | resolve r =>
    refine ⟨.inl (by decide : 4 < 5), trivial,
      HttpPhase.orBroken_reaches 5 (by decide) (fun a => ?_) (fun a => ?_) r⟩
    · exact Nat.le_refl 5
    · trivial
  | connect r => exact absurd rfl hc
  | handshake hscheme r =>
    refine ⟨.inl (by decide : 0 < 1), hon,
      HttpPhase.orBroken_reaches 1 (by decide) (fun a => ?_) (fun a => ?_) r⟩
    · exact Nat.le_refl 1
    · exact hon
  | writePlain hscheme r =>
    refine ⟨.inl (by decide : 0 < 2), hon,
      HttpPhase.orBroken_reaches 2 (by decide) (fun a => ?_) (fun a => ?_) r⟩
    · exact Nat.le_refl 2
    · exact hon
  | writeSecured r =>
    refine ⟨.inl (by decide : 1 < 2), hon,
      HttpPhase.orBroken_reaches 2 (by decide) (fun a => ?_) (fun a => ?_) r⟩
    · exact Nat.le_refl 2
    · exact hon
  | readHeader r =>
    obtain rfl := hon
    refine ⟨.inl (by decide : 2 < 3), rfl,
      HttpPhase.orBroken_reaches 3 (by decide) (fun a => ?_) (fun a => ?_) r⟩
    · exact (HttpPhase.answered_reaches _ a.1 a.2).1
    · exact (HttpPhase.answered_reaches _ a.1 a.2).2
  | read size hdone r =>
    obtain rfl := hon
    exact ⟨.inr ⟨rfl, rfl⟩, rfl, HttpPhase.afterRead_reaches r⟩

structure OnConnection (conn : lib.Conn) (calls : List (Call (httpEffects lib)))
    (ph : HttpPhase lib) : Prop where
  order : calls.Pairwise fun x y => HttpOp.Before x.op y.op
  reached : ∀ x ∈ calls, HttpOp.rank x.op ≤ ph.rank
  on : ∀ x ∈ calls, HttpOp.On conn x.op
  phase : ph.On conn

theorem OnConnection.step {calls : List (Call (httpEffects lib))} (hi : OnConnection conn calls ph)
    (h : HttpStep ph call ph') (hc : ¬ IsConnect call) :
    OnConnection conn (calls ++ [call]) ph' := by
  obtain ⟨hbefore, hcall, hrank, hphase⟩ := h.ordered hc hi.phase
  have hprior : ∀ x ∈ calls, HttpOp.Before x.op call.op := by
    intro x hx
    have hle := hi.reached x hx
    unfold HttpOp.Before
    omega
  refine ⟨?_, fun x hx => ?_, fun x hx => ?_, hphase⟩
  · rw [List.pairwise_append]
    refine ⟨hi.order, List.pairwise_singleton _ _, fun x hx y hy => ?_⟩
    obtain rfl := List.mem_singleton.mp hy
    exact hprior x hx
  · rcases List.mem_append.mp hx with hx | hx
    · have hle := hi.reached x hx
      have hlt := hprior x hx
      unfold HttpOp.Before at hlt
      omega
    · obtain rfl := List.mem_singleton.mp hx
      exact hrank
  · rcases List.mem_append.mp hx with hx | hx
    · exact hi.on x hx
    · obtain rfl := List.mem_singleton.mp hx
      exact hcall

theorem httpClient_connection {url : Str} {tr pre mid : List (Call (httpEffects lib))}
    {resolved : lib.Resolved} (h : (httpClient lib url).Run tr ph)
    (hl : LastAt IsConnect tr pre ⟨.connect resolved, .ok conn⟩ mid) :
    OnConnection conn (⟨.connect resolved, .ok conn⟩ :: mid) ph := by
  refine h.episode (J := fun a mid ph => ∀ resolved conn,
    a = ⟨.connect resolved, .ok conn⟩ → OnConnection conn (a :: mid) ph) ?_ ?_ hl _ _ rfl
  · rintro s a t hstep - resolved conn rfl
    cases hstep
    refine ⟨List.pairwise_singleton _ _, fun x hx => ?_, fun x hx => ?_, rfl⟩
    · obtain rfl := List.mem_singleton.mp hx
      exact Nat.zero_le _
    · obtain rfl := List.mem_singleton.mp hx
      trivial
  · intro s a mid b t hi hstep hb resolved conn ha
    exact (hi resolved conn ha).step hstep hb

theorem httpClient_failed {url : Str} {tr : List (Call (httpEffects lib))}
    (h : (httpClient lib url).Run tr ph) :
    ∀ pre call post, tr = pre ++ call :: post → HttpOp.Failed call.op call.res →
      post = [] ∧ ph = .broken := by
  refine h.trace_invariant (I := fun tr ph => ∀ pre call post, tr = pre ++ call :: post →
    HttpOp.Failed call.op call.res → post = [] ∧ ph = .broken) ?_ ?_
  · intro s _ pre call post hnil
    exact absurd hnil.symm (by simp)
  · intro tr s a t hi hstep pre call post htr hf
    rcases List.eq_nil_or_concat post with rfl | ⟨post', b, rfl⟩
    · obtain ⟨_, hlast⟩ := List.append_inj' htr rfl
      obtain rfl := List.head_eq_of_cons_eq hlast
      exact ⟨rfl, HttpStep.failed hstep hf⟩
    · -- nothing can have followed the call
      rw [List.concat_eq_append, ← List.cons_append, ← List.append_assoc] at htr
      obtain ⟨htr', _⟩ := List.append_inj' htr rfl
      obtain ⟨_, rfl⟩ := hi pre call post' htr' hf
      cases hstep

/-- Over any network, whatever it answers and wherever the one who asks for chunks stops, the calls
keep to the protocol; so the first to fail is the last, and each connection has its calls in order,
once, but for the reads. -/
theorem get_sync_protocol (net : Str → HttpWorld lib S) (n : Nat) (url : Str) (world : S)
    (buffers : List (List UInt8)) (k : Nat) :
    let tr := (getSyncCalls net n url world buffers).take k
    (∃ ph, (httpClient lib url).Run tr ph) ∧
    (∀ pre call post, tr = pre ++ call :: post → HttpOp.Failed call.op call.res → post = []) ∧
    ∀ pre mid resolved conn, LastAt IsConnect tr pre ⟨.connect resolved, .ok conn⟩ mid →
      (⟨.connect resolved, .ok conn⟩ :: mid).Pairwise (fun x y => HttpOp.Before x.op y.op) ∧
        ∀ x ∈ mid, HttpOp.On conn x.op := by
  intro tr
  obtain ⟨ph, hall⟩ := getSyncCalls_run net n url world buffers
  rw [← List.take_append_drop k (getSyncCalls net n url world buffers)] at hall
  obtain ⟨ph, hrun⟩ := hall.cut
  refine ⟨⟨ph, hrun⟩, fun pre call post htr hf => ?_, fun pre mid resolved conn hl => ?_⟩
  · exact (httpClient_failed hrun pre call post htr hf).1
  · have hon := httpClient_connection hrun hl
    exact ⟨hon.order, fun x hx => hon.on x (List.mem_cons_of_mem _ hx)⟩

example : (getSyncCalls (webNet redirectingWeb) 2 (lit "http://h/1") [] [[0, 0, 0], [0, 0]]).map
    (fun call => HttpOp.rank call.op) = [5, 0, 2, 3, 5, 0, 2, 3, 4, 4] := by decide

end

end
end Acord
