import Acord.GetSyncBody

/-! Where `get_sync` goes when it is redirected: the references that it resolves as they should
be. -/

namespace Acord
open Ac RequestLoop Iteration Rfc3986

structure RfcSplit (lib : HttpLib) : Prop where
  scheme : ∀ url, (lib.fromUri url).scheme = (parse url).scheme.getD []
  authority : ∀ url, (lib.fromUri url).authority = (parse url).authority.getD []

def Direct (loc : Str) : Prop :=
  ((parse loc).scheme ≠ none ∨ startsWithSlash loc = true ∧ (parse loc).authority = none) ∧
    DotFree (parse loc).path

variable {lib : HttpLib} {S : Type} {net : Str → HttpWorld lib S} {q q' start : Requesting S}

/-- A header answered in the run has the Location. -/
def Located (ran : Ran (httpEffects lib) Exn (Hop lib) S) (loc : Str) : Prop :=
  ∃ conn buf buf' p, (⟨.readHeader conn buf, .ok (buf', p)⟩ : Call (httpEffects lib)) ∈ ran.calls ∧
    lib.location p = some loc

theorem openStream_scheme {W : HttpWorld lib S} {splitUrl : UriSplit} {s : S}
    {stream : HttpStream lib}
    (h : ((openStream lib splitUrl).run W s).outcome = .ret stream) :
    splitUrl.scheme = lit "http" ∨ splitUrl.scheme = lit "https" := by
  obtain ⟨resolved, _, h⟩ := Prog.run_bind_inv h
  obtain ⟨conn, _, h⟩ := Prog.run_bind_inv h
  split at h
  · next hhttp => exact .inl hhttp
  · split at h
    · next hhttps => exact .inr hhttps.2
    · cases h

def HttpOp.Sends : HttpOp lib → Prop
  | readHeader _ _ | read _ _ _ _ => False
  | _ => True

theorem openStream_sends (splitUrl : UriSplit) : (openStream lib splitUrl).All HttpOp.Sends := by
  refine .bind ⟨trivial, fun r => .ofExcept r⟩ fun resolved => ?_
  refine .bind ⟨trivial, fun r => .ofExcept r⟩ fun conn => ?_
  split
  · trivial
  · split <;> trivial

theorem openStream_noCrash (splitUrl : UriSplit) : (openStream lib splitUrl).NoCrash := by
  refine .bind (fun r => .ofExcept r) fun resolved => .bind (fun r => .ofExcept r) fun conn => ?_
  split
  · trivial
  · split <;> trivial

theorem sendRequest_sends (url : Str) : (sendRequest lib url).All HttpOp.Sends := by
  refine .bind (openStream_sends _) fun stream => .bind ?_ fun _ => ?_
  · unfold HttpStream.handshake
    split
    · exact ⟨trivial, fun r => .ofExcept r⟩
    · trivial
  · exact .bind ⟨trivial, fun r => .ofExcept r⟩ fun _ => trivial

theorem sendRequest_noCrash (url : Str) : (sendRequest lib url).NoCrash := by
  refine .bind (openStream_noCrash _) fun stream => .bind ?_ fun _ => ?_
  · unfold HttpStream.handshake
    split
    · exact fun r => .ofExcept r
    · trivial
  · exact .bind (fun r => .ofExcept r) fun _ => trivial

section
variable {out : Outcome Exn (Hop lib)} {calls : List (Call (httpEffects lib))} {conn : lib.Conn}
  {buf buf' : List UInt8} {p : lib.Parser} {w : S} {loc : Str}
  (hsends : ∀ c ∈ calls, HttpOp.Sends c.op)
include hsends

theorem located_last {r : Except Exn (List UInt8 × lib.Parser)} :
    Located ⟨out, calls ++ [⟨.readHeader conn buf, r⟩], w⟩ loc ↔
      ∃ buf' p, r = .ok (buf', p) ∧ lib.location p = some loc := by
  constructor
  · rintro ⟨conn', buf', buf'', p, hmem, hloc⟩
    rcases List.mem_append.mp hmem with hmem | hmem
    · exact (hsends _ hmem).elim
    · obtain ⟨hop, hres⟩ := Call.mk.inj (List.mem_singleton.mp hmem)
      obtain ⟨rfl, rfl⟩ := HttpOp.readHeader.inj hop
      exact ⟨buf'', p, (eq_of_heq hres).symm, hloc⟩
  · rintro ⟨buf', p, rfl, hloc⟩
    exact ⟨conn, buf, buf', p, List.mem_append_right _ (List.mem_singleton_self _), hloc⟩

theorem located_ok :
    Located ⟨out, calls ++ [⟨.readHeader conn buf, .ok (buf', p)⟩], w⟩ loc ↔
      lib.location p = some loc := by
  refine (located_last hsends).trans ⟨?_, fun hl => ⟨buf', p, rfl, hl⟩⟩
  rintro ⟨_, _, hr, hl⟩
  obtain ⟨rfl, rfl⟩ := Prod.mk.inj (Except.ok.inj hr)
  exact hl

theorem located_error {e : Exn} :
    ¬ Located ⟨out, calls ++ [⟨.readHeader conn buf, .error e⟩], w⟩ loc := by
  intro hl
  obtain ⟨_, _, hr, _⟩ := (located_last hsends).mp hl
  cases hr

end

theorem hop_cases (net : Str → HttpWorld lib S) (q : Requesting S) :
    (∃ loc buf, (hopRun net q).outcome = .ret (.redirect (redirectUrl (lib.fromUri q.url) loc) buf) ∧
      ∀ loc', Located (hopRun net q) loc' ↔ loc' = loc) ∨
    ((∀ loc, ¬ Located (hopRun net q) loc) ∧
      ((∃ e, (hopRun net q).outcome = .throw e) ∨
        ∃ stream buf p, (hopRun net q).outcome = .ret (.response stream buf p) ∧
          lib.location p = none)) := by
  have hsends : ∀ c ∈ ((sendRequest lib q.url).run (net q.url) q.world).calls, HttpOp.Sends c.op :=
    (sendRequest_sends q.url).run_calls q.world
  unfold hopRun hop
  rcases (sendRequest_noCrash q.url).run (W := net q.url) q.world with ⟨stream, hsent⟩ | ⟨e, hsent⟩
  · rw [Prog.run_bind_ret hsent]
    generalize ((sendRequest lib q.url).run (net q.url) q.world).calls = calls at hsends ⊢
    generalize ((sendRequest lib q.url).run (net q.url) q.world).world = w
    simp only [HttpStream.readHeader, Prog.call_bind, Prog.run_call]
    generalize (net q.url).answer w (.readHeader stream.conn (clear q.buf)) = answer
    obtain ⟨r, w'⟩ := answer
    cases r with
    | error e => exact .inr ⟨fun _ => located_error hsends, .inl ⟨e, rfl⟩⟩
    | ok header =>
      obtain ⟨buf, p⟩ := header
      simp only [Prog.ofExcept_ok, Prog.ret_bind]
      cases hloc : lib.location p with
      | some loc =>
        refine .inl ⟨loc, buf, rfl, fun loc' => (located_ok hsends).trans ?_⟩
        rw [hloc, Option.some.injEq, eq_comm]
      | none =>
        have hnot : ∀ {out : Outcome Exn (Hop lib)} {loc : Str}, ¬ Located ⟨out, calls ++
            [⟨.readHeader stream.conn (clear q.buf), .ok (buf, p)⟩], w'⟩ loc := by
          intro out loc hl
          rw [located_ok hsends, hloc] at hl
          cases hl
        by_cases hstatus : lib.result p ≠ 200
        · simp only [if_pos hstatus]
          exact .inr ⟨fun _ => hnot, .inl ⟨_, rfl⟩⟩
        · simp only [if_neg hstatus]
          exact .inr ⟨fun _ => hnot, .inr ⟨stream, buf, p, rfl, hloc⟩⟩
  · rw [Prog.run_bind_throw hsent]
    refine .inr ⟨?_, .inl ⟨e, rfl⟩⟩
    rintro loc ⟨conn, buf, buf', p, hmem, _⟩
    exact hsends _ hmem

theorem hop_redirect {url' : Str} {buf' : List UInt8}
    (h : (hopRun net q).outcome = .ret (.redirect url' buf')) :
    (lib.fromUri q.url).scheme ≠ [] ∧
    ∃ loc, Located (hopRun net q) loc ∧ url' = redirectUrl (lib.fromUri q.url) loc := by
  constructor
  · unfold hopRun hop at h
    obtain ⟨stream, hsent, _⟩ := Prog.run_bind_inv h
    obtain ⟨stream', hopen, _⟩ := Prog.run_bind_inv hsent
    rcases openStream_scheme hopen with hs | hs <;> rw [hs] <;> decide
  · rcases hop_cases net q with ⟨loc, buf, hout, hloc⟩ | ⟨_, ⟨e, hout⟩ | ⟨stream, buf, p, hout, _⟩⟩
    · rw [hout] at h
      obtain ⟨rfl, rfl⟩ := Hop.redirect.inj (Outcome.ret.inj h)
      exact ⟨loc, (hloc loc).mpr rfl, rfl⟩
    · rw [hout] at h
      cases h
    · rw [hout] at h
      cases h

theorem startsWithSlash_iff (loc : Str) :
    startsWithSlash loc = true ↔ ∃ tail, loc = slash :: tail := by
  cases loc with
  | nil => simp [startsWithSlash]
  | cons c tail => simp [startsWithSlash]

theorem redirectUrl_iff {base loc : Str} {splitUrl : UriSplit}
    (hs : (parse base).scheme = some splitUrl.scheme)
    (ha : (parse base).authority = some splitUrl.authority) :
    redirectUrl splitUrl loc = Rfc3986.resolve base loc ↔ Direct loc := by
  unfold redirectUrl Direct
  by_cases hslash : startsWithSlash loc = true
  · obtain ⟨tail, rfl⟩ := (startsWithSlash_iff loc).mp hslash
    have hnone : (parse (slash :: tail)).scheme = none := scheme_of_slash tail
    rw [if_pos hslash]
    by_cases hauth : (parse (slash :: tail)).authority = none
    · have hpath := resolve_path hs ha hnone hauth (path_of_slash hauth)
      rw [and_iff_right (.inr ⟨hslash, hauth⟩), ← hpath]
      exact eq_comm
    · -- a network-path reference is taken for a path on the same host
      refine iff_of_false ?_ ?_
      · intro heq
        have hlen := resolve_network_length hs hnone hauth
        rw [← heq] at hlen
        simp only [List.length_append] at hlen
        have hsep : (lit "://").length = 3 := by decide
        omega
      · rintro ⟨hscheme | ⟨_, hnone'⟩, _⟩
        · exact hscheme hnone
        · exact hauth hnone'
  · rw [if_neg hslash]
    by_cases hscheme : (parse loc).scheme = none
    · -- a relative path or a query is taken for a URL
      refine iff_of_false ?_ ?_
      · intro heq
        have hres := resolve_scheme hs hscheme
        rw [← heq, hscheme] at hres
        cases hres
      · rintro ⟨hsome | ⟨hpos, _⟩, _⟩
        · exact hsome hscheme
        · exact hslash hpos
    · have habs : Rfc3986.resolve base loc = loc ↔ _ := resolve_absolute hscheme
      rw [and_iff_right (.inl hscheme), ← habs]
      exact eq_comm

theorem hopStep_redirect (h : hopStep net q = .inl q') :
    (hopRun net q).outcome = .ret (.redirect q'.url q'.buf) := by
  unfold hopStep at h
  split at h
  · next url buf hout =>
    obtain rfl := Sum.inl.inj h
    exact hout
  all_goals cases h

/-- Along every chain the next URL is what the Location resolves to exactly when it is direct. -/
theorem redirects_resolved (hlib : RfcSplit lib) {n : Nat}
    (hn : iter (hopStep net) n start = .inl q)
    (hnext : iter (hopStep net) (n + 1) start = .inl q')
    (hauth : (parse q.url).authority ≠ none) :
    ∃ loc, Located (hopRun net q) loc ∧
      (q'.url = Rfc3986.resolve q.url loc ↔ Direct loc) := by
  rw [iter_succ hn] at hnext
  obtain ⟨hscheme, loc, hloc, hurl⟩ := hop_redirect (hopStep_redirect hnext)
  refine ⟨loc, hloc, ?_⟩
  have hs : (parse q.url).scheme = some (lib.fromUri q.url).scheme := by
    rw [hlib.scheme] at hscheme ⊢
    cases h : (parse q.url).scheme with
    | none =>
      rw [h] at hscheme
      exact absurd rfl hscheme
    | some sc => rfl
  have ha : (parse q.url).authority = some (lib.fromUri q.url).authority := by
    rw [hlib.authority]
    cases h : (parse q.url).authority with
    | none => exact absurd h hauth
    | some a => rfl
  rw [hurl]
  exact redirectUrl_iff hs ha

theorem webLib_rfcSplit : RfcSplit webLib := ⟨fun _ => rfl, fun _ => rfl⟩

theorem redirects_resolved_absolutePath :
    ∃ loc, Located (hopRun (webNet redirectingWeb) ⟨lit "http://h/1", [], []⟩) loc ∧
      (lit "http://h/2" = Rfc3986.resolve (lit "http://h/1") loc ↔ Direct loc) := by
  have hnext : iter (hopStep (webNet redirectingWeb)) 1 ⟨lit "http://h/1", [], []⟩ =
    .inl ⟨lit "http://h/2", [9], [[9]]⟩ := rfl
  exact redirects_resolved webLib_rfcSplit (n := 0) rfl hnext (by decide)

def relativeWeb (url : Str) : WebResponse :=
  if url = lit "http://h/a/b" then ⟨some (lit "c"), 301, true, []⟩ else ⟨none, 200, true, []⟩

theorem relative_requested_as_is :
    ∃ q', hopStep (webNet relativeWeb) ⟨lit "http://h/a/b", [], []⟩ = .inl q' ∧
      Located (hopRun (webNet relativeWeb) ⟨lit "http://h/a/b", [], []⟩) (lit "c") ∧
      Rfc3986.resolve (lit "http://h/a/b") (lit "c") = lit "http://h/a/c" ∧
      q'.url ≠ Rfc3986.resolve (lit "http://h/a/b") (lit "c") := by
  have hheader : Located (hopRun (webNet relativeWeb) ⟨lit "http://h/a/b", [], []⟩) (lit "c") :=
    ⟨_, _, _, _, List.mem_of_getLast? rfl, rfl⟩
  exact ⟨⟨lit "c", [], []⟩, rfl, hheader, by decide, by decide⟩

end Acord
