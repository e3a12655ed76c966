import Acord.Redirects

/-! When the redirect loop ends, over a server that answers each URL in its own way. -/

namespace Acord
open Ac RequestLoop Iteration

variable {lib : HttpLib} (server : Str → HttpWorld lib Unit) (start : Str)

def LocatedAt (url loc : Str) : Prop := Located (hopRun server ⟨url, [], ()⟩) loc

def Redirected (url : Str) : Prop := ∃ loc, LocatedAt server url loc

/-- The chain of Locations from `start`, as far as the `n`-th. -/
inductive Chained : Nat → Str → Prop
  | start : Chained 0 start
  | next {n : Nat} {url loc : Str} (before : Chained n url) (answer : LocatedAt server url loc) :
      Chained (n + 1) (redirectUrl (lib.fromUri url) loc)

def Requested (n : Nat) (url : Str) : Prop :=
  ∃ q, iter (hopStep server) n ⟨start, [], ()⟩ = .inl q ∧ q.url = url

def EndsAfter (n : Nat) : Prop :=
  (∃ b, iter (hopStep server) (n + 1) ⟨start, [], ()⟩ = .inr (.ret b) ∧
    lib.location b.parser = none) ∨
  ∃ e, iter (hopStep server) (n + 1) ⟨start, [], ()⟩ = .inr (.throw e)

def nextUrl (url : Str) : Str ⊕ Outcome Exn (Body lib Unit) :=
  Sum.map Requesting.url id (hopStep server ⟨url, [], ()⟩)

theorem hopStep_nextUrl (q : Requesting Unit) :
    Sum.map Requesting.url id (hopStep server q) = nextUrl server q.url := rfl

variable {server start} {n : Nat} {url url' : Str}

theorem nextUrl_inl : nextUrl server url = .inl url' ↔
    ∃ loc, LocatedAt server url loc ∧ redirectUrl (lib.fromUri url) loc = url' := by
  unfold nextUrl hopStep LocatedAt
  rcases hop_cases server ⟨url, [], ()⟩ with
    ⟨loc, buf, hout, hloc⟩ | ⟨hnone, ⟨e, hout⟩ | ⟨stream, buf, p, hout, _⟩⟩
  · simp [hout, hloc]
  · simp [hout, hnone]
  · simp [hout, hnone]

theorem redirected_iff : Redirected server url ↔ ∃ url', nextUrl server url = .inl url' := by
  simp [Redirected, nextUrl_inl]

theorem requested_iff : Requested server start n url ↔ iter (nextUrl server) n start = .inl url := by
  have hmap := iter_map (hopStep_nextUrl server) n ⟨start, [], ()⟩
  unfold Requested
  rw [← hmap]
  cases iter (hopStep server) n ⟨start, [], ()⟩ with
  | inl q => simp
  | inr r => simp

theorem chained_iff : Chained server start n url ↔ iter (nextUrl server) n start = .inl url := by
  constructor
  · intro h
    induction h with
    | start => rfl
    | next _ answer ih =>
      rw [iter_succ ih]
      exact nextUrl_inl.mpr ⟨_, answer, rfl⟩
  · intro h
    induction n generalizing url with
    | zero =>
      obtain rfl := Sum.inl.inj h
      exact .start
    | succ n ih =>
      obtain ⟨before, hn⟩ := iter_before h (Nat.le_succ n)
      rw [iter_succ hn] at h
      obtain ⟨loc, answer, rfl⟩ := nextUrl_inl.mp h
      exact (ih hn).next answer

theorem requested_iff_chained : Requested server start n url ↔ Chained server start n url :=
  requested_iff.trans chained_iff.symm

theorem endsAfter (h : Chained server start n url) (hr : ¬ Redirected server url) :
    EndsAfter server start n := by
  obtain ⟨⟨url', buf, _⟩, hq, hurl⟩ := requested_iff_chained.mpr h
  obtain rfl : url' = url := hurl
  unfold EndsAfter
  rw [iter_succ hq]
  unfold hopStep
  rcases hop_cases server ⟨url', buf, ()⟩ with
    ⟨loc, _, _, hloc⟩ | ⟨_, ⟨e, hout⟩ | ⟨stream, _, p, hout, hp⟩⟩
  · exact absurd ⟨loc, (hloc loc).mpr rfl⟩ hr
  · rw [hout]
    exact .inr ⟨e, rfl⟩
  · rw [hout]
    exact .inl ⟨_, rfl, hp⟩

/-- The requests of the loop are the chain of the server's Locations: it ends at a URL that is
answered without one, or by an exception, and never once a URL is requested again; where finitely
many URLs are redirected, these are the only two ways. -/
theorem redirect_loop_ends_iff (server : Str → HttpWorld lib Unit) (start : Str) :
    (∀ n url, Requested server start n url ↔ Chained server start n url) ∧
    (∀ n url, Chained server start n url → ¬ Redirected server url → EndsAfter server start n) ∧
    (Ends (hopStep server) ⟨start, [], ()⟩ ↔
      ∃ n url, Chained server start n url ∧ ¬ Redirected server url) ∧
    (∀ i j url, i < j → Chained server start i url → Chained server start j url →
      ¬ Ends (hopStep server) ⟨start, [], ()⟩) ∧
    ({url | Redirected server url}.Finite →
      (Ends (hopStep server) ⟨start, [], ()⟩ ↔
        ∀ i j url, Chained server start i url → Chained server start j url → i = j)) := by
  have hends : Ends (hopStep server) ⟨start, [], ()⟩ ↔ Ends (nextUrl server) start :=
    ends_map (hopStep_nextUrl server)
  refine ⟨fun _ _ => requested_iff_chained, fun _ _ => endsAfter, ?_⟩
  simp only [hends, chained_iff, redirected_iff]
  refine ⟨ends_iff_stops, fun i j url hij hi hj => not_ends_of_repeat hi hj hij, fun hfin => ?_⟩
  exact ends_iff_no_repeat hfin

def headerServer (web : Str → WebResponse) (url : Str) : HttpWorld webLib Unit :=
  ⟨fun _ op => ((webAnswer (web url) [] op).1, ())⟩

/-- A URL that is redirected to itself is requested for ever. -/
theorem self_redirect_never_ends :
    ¬ Ends (hopStep (headerServer fun _ => ⟨some (lit "http://h/"), 301, true, []⟩))
      ⟨lit "http://h/", [], ()⟩ :=
  not_ends_of_repeat (m := 0) (n := 1) rfl rfl Nat.one_pos

end Acord
