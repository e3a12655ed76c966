import Acord.HttpReads

/-! The body that `get_sync` hands out, chunk by chunk, after any redirects. -/

namespace Acord
open Ac RequestLoop Iteration

variable {lib : HttpLib} {S : Type} {W : HttpWorld lib S} {net : Str → HttpWorld lib S}
  {buffers : Nat → List UInt8}

/-- The chunks got with the buffers from the `i`-th on: together `R`, every one but the last as
long as its buffer, and the last one empty only if there is nothing to get. -/
structure Chunked (buffers : Nat → List UInt8) (i : Nat) (chunks : List (List UInt8))
    (R : List UInt8) : Prop where
  flatten : chunks.flatten = R
  full : ∀ j c, chunks[j]? = some c → j + 1 < chunks.length →
    c.length = (buffers (i + j)).length
  last : ∀ c, chunks.getLast? = some c → c = [] → R = []

theorem chunked_nil (buffers : Nat → List UInt8) (i : Nat) : Chunked buffers i [] [] :=
  ⟨rfl, fun _ _ h _ => (nomatch h), fun _ h => (nomatch h)⟩

theorem chunked_last (buffers : Nat → List UInt8) (i : Nat) (R : List UInt8) :
    Chunked buffers i [R] R where
  flatten := List.append_nil R
  full j c _ hj := by simp at hj
  last c hc he := by
    obtain rfl : R = c := by simpa using hc
    exact he

theorem Chunked.cons {i : Nat} {chunks : List (List UInt8)} {R c : List UInt8}
    (h : Chunked buffers (i + 1) chunks R) (hR : R ≠ []) (hc : c.length = (buffers i).length) :
    Chunked buffers i (c :: chunks) (c ++ R) where
  flatten := congrArg (c ++ ·) h.flatten
  full j d hd hj := by
    cases j with
    | zero =>
      obtain rfl : c = d := Option.some.inj hd
      exact hc
    | succ j =>
      have hfull := h.full j d hd (by simpa using hj)
      rwa [Nat.add_assoc, Nat.add_comm 1 j] at hfull
  last d hd he := by
    have hne : chunks ≠ [] := by
      rintro rfl
      exact hR h.flatten.symm
    rw [List.getLast?_cons_of_ne_nil hne] at hd
    exact absurd (h.last d hd he) hR

variable {Serves : S → lib.Conn → Bool → List UInt8 → Prop}
  {Holds : S → lib.Conn → List UInt8 → lib.Parser → List UInt8 → Prop} {b : Body lib S}
  {R : List UInt8}

theorem resume_chunk {buffer : List UInt8} {r : ReadResult lib} {w : S}
    (ha : (net b.url).answer b.world
      (.read b.stream.conn b.buf b.parser buffer.length) = (r, w))
    (hec : r.ec = none ∨ r.ec = some .needBuffer) :
    b.resume net buffer =
      (r.moved, Body.loop { b with buf := r.buf, parser := r.parser, world := w }) := by
  have htake : (r.moved ++ buffer.drop r.moved.length).take
      ((r.moved ++ buffer.drop r.moved.length).length - (buffer.length - r.moved.length)) =
      r.moved := by
    have hn : (r.moved ++ buffer.drop r.moved.length).length - (buffer.length - r.moved.length) =
        r.moved.length := by
      rw [List.length_append, List.length_drop, Nat.add_sub_cancel]
    rw [hn, List.take_left]
  unfold Body.resume
  rw [ha]
  rcases hec with hec | hec <;> simp only [hec, htake]

theorem resume_cases (hr : Reads (net b.url) Serves Holds)
    (hh : Holds b.world b.stream.conn b.buf b.parser R) (hd : lib.isDone b.parser = false)
    {buffer : List UInt8} (hb : buffer ≠ []) :
    b.resume net buffer = (R, .returned) ∨
    ∃ c R' b', R = c ++ R' ∧ R' ≠ [] ∧ c.length = buffer.length ∧
      b.resume net buffer = (c, .awaiting b') ∧ b'.url = b.url ∧
      Holds b'.world b'.stream.conn b'.buf b'.parser R' ∧ lib.isDone b'.parser = false := by
  obtain ⟨r, w, R', ha, hR, _, hh', hend⟩ := hr.read hh hd (List.length_pos_iff.mpr hb)
  rcases hend with ⟨hdone, rfl, hec⟩ | ⟨hgo, hne, hfull, hec⟩
  · left
    rw [resume_chunk ha (.inl hec), hR, List.append_nil]
    simp only [Body.loop, hdone, if_true]
  · right
    refine ⟨r.moved, R', { b with buf := r.buf, parser := r.parser, world := w }, hR, hne, hfull,
      ?_, rfl, hh', hgo⟩
    rw [resume_chunk ha (.inr hec)]
    simp only [Body.loop, hgo, Bool.false_eq_true, if_false]

variable {g : SyncGenerator (Body lib S)}

theorem drain_done {resume : Producer (Body lib S)} (h : g.done = true) (m i : Nat) :
    SyncGenerator.drain resume buffers m i g = some (.ok [], g) := by
  cases m <;> simp only [SyncGenerator.drain, h, if_true]

theorem drain_more {resume : Producer (Body lib S)} {g₁ g₂ : SyncGenerator (Body lib S)} {m i : Nat}
    {c : List UInt8} {cs : List (List UInt8)} (h : g.done = false)
    (hc : g.getNextChunk resume (buffers i) = (.ok c, g₁))
    (hcs : SyncGenerator.drain resume buffers m (i + 1) g₁ = some (.ok cs, g₂)) :
    SyncGenerator.drain resume buffers (m + 1) i g = some (.ok (c :: cs), g₂) := by
  simp only [SyncGenerator.drain, h, Bool.false_eq_true, if_false, hc, hcs]

theorem getNextChunk_resumed {resume : Producer (Body lib S)} {buffer c : List UInt8}
    {r : Resumed (Body lib S)} (hg : g.handle = some b) (he : g.exception = none)
    (h : resume b buffer = (c, r)) (hr : ∀ e, r ≠ .threw e) :
    g.getNextChunk resume buffer = (.ok c, SyncGenerator.land { g with chunkBuf := c } r) := by
  simp only [SyncGenerator.getNextChunk, hg, h]
  cases r with
  | threw e => exact absurd rfl (hr e)
  | _ => simp only [SyncGenerator.land, SyncGenerator.rethrowIfException, he]

theorem drain_body (hb : ∀ i, buffers i ≠ []) (hr : Reads (net b.url) Serves Holds)
    (hh : Holds b.world b.stream.conn b.buf b.parser R) (hd : lib.isDone b.parser = false)
    (hg : g.handle = some b) (he : g.exception = none) (i : Nat) :
    ∃ m chunks g', SyncGenerator.drain (Body.resume net) buffers m i g = some (.ok chunks, g') ∧
      g'.done = true ∧ Chunked buffers i chunks R := by
  generalize hn : R.length = n
  induction n using Nat.strong_induction_on generalizing R b g i with
  | _ n ih =>
    have hopen : g.done = false := by simp [SyncGenerator.done, hg]
    rcases resume_cases hr hh hd (hb i) with hret | ⟨c, R', b', rfl, hne, hc, hgo, hurl, hh', hd'⟩
    · have hchunk := getNextChunk_resumed hg he hret nofun
      exact ⟨1, [R], _, drain_more hopen hchunk (drain_done rfl 0 (i + 1)), rfl,
        chunked_last buffers i R⟩
    · -- the buffer was filled, so less is left for the calls that follow
      have hchunk := getNextChunk_resumed hg he hgo nofun
      have hpos : 0 < c.length := hc ▸ List.length_pos_iff.mpr (hb i)
      have hless : R'.length < n := by
        rw [← hn, List.length_append]
        omega
      obtain ⟨m, chunks, g', hrest, hdone, hchunks⟩ :=
        ih R'.length hless (g := SyncGenerator.land { g with chunkBuf := c } (.awaiting b'))
          (hurl ▸ hr) hh' hd' rfl he (i + 1) rfl
      exact ⟨m + 1, c :: chunks, g', drain_more hopen hchunk hrest, hdone, hchunks.cons hne hc⟩

theorem hopStep_served {q : Requesting S} {stream : HttpStream lib} {len : Bool} {B : List UInt8}
    (hr : Reads (net q.url) Serves Holds)
    (hsent : ((sendRequest lib q.url).run (net q.url) q.world).outcome = .ret stream)
    (hserves : Serves ((sendRequest lib q.url).run (net q.url) q.world).world stream.conn len B) :
    ∃ b : Body lib S, hopStep net q = .inr (.ret b) ∧ b.url = q.url ∧
      lib.contentLength b.parser = (if len then some B.length else none) ∧
      (lib.isDone b.parser = true → B = []) ∧
      Holds b.world b.stream.conn b.buf b.parser B := by
  obtain ⟨buf, p, w, ha, hloc, hok, hlen, hdone, hh⟩ := hr.header hserves
  have hrun : (hopRun net q).outcome = .ret (.response stream buf p) ∧
      (hopRun net q).world = w := by
    unfold hopRun hop
    rw [Prog.run_bind_ret hsent]
    simp only [HttpStream.readHeader, clear, Prog.call_bind, Prog.run_call, ha, Prog.ofExcept_ok,
      Prog.ret_bind, hloc, hok, ne_eq, not_true_eq_false, if_false, Prog.pure_eq, Prog.run_ret,
      and_self]
  obtain ⟨hout, hw⟩ := hrun
  refine ⟨⟨q.url, stream, buf, p, w⟩, ?_, rfl, hlen, hdone, hh⟩
  simp only [hopStep, hout, hw]

/-- After any number of redirects, whatever the earlier responses were, the calls of the generator
yield exactly the body of the one that is served, in chunks that fill their buffers. -/
theorem get_sync_reassembles {n : Nat} {url : Str} {world : S} {q : Requesting S}
    {stream : HttpStream lib} {len : Bool} {B : List UInt8}
    (hchain : iter (hopStep net) n ⟨url, [], world⟩ = .inl q)
    (hr : Reads (net q.url) Serves Holds)
    (hsent : ((sendRequest lib q.url).run (net q.url) q.world).outcome = .ret stream)
    (hserves : Serves ((sendRequest lib q.url).run (net q.url) q.world).world stream.conn len B) :
    ∃ g, getSync net (n + 1) url world = some (.ok g) ∧
      g.size = (if len then some B.length else none) ∧
      ∀ buffers : Nat → List UInt8, (∀ i, buffers i ≠ []) →
        ∃ m chunks g', SyncGenerator.drain (Body.resume net) buffers m 0 g =
            some (.ok chunks, g') ∧
          g'.done = true ∧ Chunked buffers 0 chunks B := by
  obtain ⟨b, hstep, hurl, hlen, hdone, hh⟩ := hopStep_served hr hsent hserves
  have hend : iter (hopStep net) (n + 1) ⟨url, [], world⟩ = .inr (.ret b) :=
    (iter_succ hchain).trans hstep
  cases hd : lib.isDone b.parser with
  | true =>
    -- the header was the whole message, so the coroutine ends without awaiting a buffer
    refine ⟨⟨lib.contentLength b.parser, [], none, none⟩, ?_, hlen, fun buffers _ => ?_⟩
    · simp only [getSync, hend, Body.loop, hd, if_true]
      rfl
    · obtain rfl := hdone hd
      exact ⟨0, [], _, drain_done rfl 0 0, rfl, chunked_nil buffers 0⟩
  | false =>
    refine ⟨⟨lib.contentLength b.parser, [], none, some b⟩, ?_, hlen, fun buffers hb => ?_⟩
    · simp only [getSync, hend, Body.loop, hd, Bool.false_eq_true, if_false]
      rfl
    · exact drain_body hb (hurl ▸ hr) hh hd rfl rfl 0

def redirectingWeb (url : Str) : WebResponse :=
  if url = lit "http://h/1" then ⟨some (lit "/2"), 301, true, [[9], [9]]⟩
  else ⟨none, 200, true, [[1, 2], [3], [4, 5]]⟩

theorem get_sync_reassembles_redirected :
    ∃ g, getSync (webNet redirectingWeb) 2 (lit "http://h/1") [] = some (.ok g) ∧ g.size = some 5 ∧
      ∀ buffers : Nat → List UInt8, (∀ i, buffers i ≠ []) →
        ∃ m chunks g', SyncGenerator.drain (Body.resume (webNet redirectingWeb)) buffers m 0 g =
            some (.ok chunks, g') ∧
          g'.done = true ∧ Chunked buffers 0 chunks [1, 2, 3, 4, 5] := by
  let stream : HttpStream webLib := ⟨(lit "h", lit "http"), false⟩
  have hsent : ((sendRequest webLib (lit "http://h/2")).run
      (webNet redirectingWeb (lit "http://h/2")) [[9]]).outcome = .ret stream := rfl
  have hserves : WebServes (redirectingWeb (lit "http://h/2")) [[1, 2], [3], [4, 5]] stream.conn
    true [1, 2, 3, 4, 5] := ⟨rfl, rfl, rfl, rfl, rfl⟩
  exact get_sync_reassembles (q := ⟨lit "http://h/2", [9], [[9]]⟩) rfl
    (webNet_reads redirectingWeb (lit "http://h/2")) hsent hserves

end Acord
