import Acord.GetSyncBody

/-! Where `get_sync` connects, and when that is where the URL says. -/

namespace Acord
open Ac RequestLoop Iteration Rfc3986

structure AuthoritySplit (lib : HttpLib) : Prop where
  scheme : ∀ url, (lib.fromUri url).scheme = lib.getSchemeFromUri url
  authority : ∀ {url sc a}, (parse url).scheme = some sc → (parse url).authority = some a →
    (lib.fromUri url).authority = a

variable (lib : HttpLib)

def serviceOf (a : Authority) (scheme : Str) : Str :=
  match a.port with
  | some (c :: port) => c :: port
  | _ => scheme

def requestAt (url : Str) (a : Authority) : HttpProg lib (List UInt8 × lib.Parser) := do
  let splitUrl := lib.fromUri url
  let resolved ← resolve lib a.host (serviceOf a splitUrl.scheme)
  let conn ← connect lib resolved
  if splitUrl.scheme = lit "https" then
    .call (.handshake conn a.host) fun r => .ofExcept r
  HttpStream.write ⟨conn, splitUrl.scheme = lit "https"⟩ (getRequest splitUrl)
  HttpStream.readHeader ⟨conn, splitUrl.scheme = lit "https"⟩ []

variable {lib} {S : Type}

def ConnectsAsUrlSays (net : Str → HttpWorld lib S) (q : Requesting S) : Prop :=
  if supportsUrl lib q.url = true then
    ∀ sc a, (parse q.url).scheme = some sc → (parse q.url).authority = some a →
      (hopRun net q).calls =
        ((requestAt lib q.url (parseAuthority a)).run (net q.url) q.world).calls
  else (hopRun net q).calls = [] ∧ ∃ e, (hopRun net q).outcome = .throw e

def JustHost (lib : HttpLib) (url : Str) : Prop :=
  supportsUrl lib url = true ∧
    ∀ sc a, (parse url).scheme = some sc → (parse url).authority = some a →
      parseAuthority a = ⟨none, a, none⟩ ∧ (lib.getSchemeFromUri url = lit "https" → 0 ∉ a)

variable {net : Str → HttpWorld lib S} {q : Requesting S}

theorem cStr_eq_iff (s : Str) : cStr s = s ↔ 0 ∉ s := by
  unfold cStr
  rw [List.takeWhile_eq_self_iff]
  constructor
  · intro h hmem
    simpa using h 0 hmem
  · intro h x hx
    simp only [ne_eq, decide_not, Bool.not_eq_true', decide_eq_false_iff_not]
    rintro rfl
    exact h hx

theorem http_ne_https : lit "http" ≠ lit "https" := by decide

theorem supportsUrl_cases {url : Str} (h : supportsUrl lib url = true) :
    lib.getSchemeFromUri url = lit "http" ∨
      lib.getSchemeFromUri url = lit "https" ∧ lib.supportsHttps = true := by
  simp only [supportsUrl] at h
  split at h
  · next hhttp => exact .inl hhttp
  · split at h
    · next hhttps => exact .inr ⟨hhttps, h⟩
    · cases h

theorem hop_calls (net : Str → HttpWorld lib S) (q : Requesting S) :
    (hopRun net q).calls = ((sendRequest lib q.url >>= fun stream => stream.readHeader []).run
      (net q.url) q.world).calls := by
  simp only [hopRun, hop, clear]
  apply Prog.run_bind_calls_congr
  intro stream w
  apply Prog.run_bind_calls
  rintro ⟨buf, parser⟩ w
  dsimp only
  split
  · rfl
  · split <;> rfl

theorem sendRequest_eq {url a : Str} (hs : supportsUrl lib url = true) (hlib : AuthoritySplit lib)
    (ha : (lib.fromUri url).authority = a) (hhost : parseAuthority a = ⟨none, a, none⟩)
    (hnul : lib.getSchemeFromUri url = lit "https" → 0 ∉ a) :
    (sendRequest lib url >>= fun stream => stream.readHeader []) =
      requestAt lib url (parseAuthority a) := by
  have hscheme := hlib.scheme url
  subst ha
  rw [hhost]
  simp only [sendRequest, openStream, requestAt, resolve, connect, serviceOf, Prog.call_bind,
    Prog.bind_assoc]
  congr 1
  funext r
  cases r with
  | error e => rfl
  | ok resolved =>
    simp only [Prog.ofExcept_ok, Prog.ret_bind]
    congr 1
    funext r
    cases r with
    | error e => rfl
    | ok conn =>
      simp only [Prog.ofExcept_ok, Prog.ret_bind]
      rcases supportsUrl_cases hs with hhttp | ⟨hhttps, hssl⟩
      · simp [hscheme, hhttp, http_ne_https, HttpStream.handshake]
      · have hname := (cStr_eq_iff _).mpr (hnul hhttps)
        simp [hscheme, hhttps, hssl, http_ne_https.symm, HttpStream.handshake, hname]

theorem hop_first_call (net : Str → HttpWorld lib S) (q : Requesting S) :
    ∃ r rest, (hopRun net q).calls =
      ⟨.resolve (lib.fromUri q.url).authority (lib.fromUri q.url).scheme, r⟩ :: rest := ⟨_, _, rfl⟩

theorem requestAt_first_call {W : HttpWorld lib S} {w : S} (url : Str) (a : Authority) :
    ∃ r rest, ((requestAt lib url a).run W w).calls =
      ⟨.resolve a.host (serviceOf a (lib.fromUri url).scheme), r⟩ :: rest := ⟨_, _, rfl⟩

def reachable (resolved : lib.Resolved) (conn : lib.Conn) : HttpWorld lib Unit where
  answer _
    | .resolve _ _ => (.ok resolved, ())
    | .connect _ => (.ok conn, ())
    | .handshake _ _ | .write _ _ => (.error (.error []), ())
    | .readHeader _ _ => (.error (.error []), ())
    | .read _ buf parser _ => (⟨buf, parser, [], some (.other (.error []))⟩, ())

theorem serverName_of_calls {url a : Str} {resolved : lib.Resolved} {conn : lib.Conn}
    (hhttps : (lib.fromUri url).scheme = lit "https") (hssl : lib.supportsHttps = true)
    (ha : (lib.fromUri url).authority = a)
    (h : ((sendRequest lib url >>= fun stream => stream.readHeader []).run
        (reachable resolved conn) ()).calls =
      ((requestAt lib url (parseAuthority a)).run (reachable resolved conn) ()).calls) :
    cStr a = (parseAuthority a).host := by
  simp [sendRequest, openStream, requestAt, resolve, connect, hhttps, hssl, ha, http_ne_https.symm,
    HttpStream.handshake, Prog.run_call, reachable] at h
  exact h.2

theorem justHost_of_reachable (hlib : AuthoritySplit lib) {url : Str} {resolved : lib.Resolved}
    {conn : lib.Conn}
    (hrun : ConnectsAsUrlSays (fun _ => reachable resolved conn) ⟨url, [], ()⟩) :
    JustHost lib url := by
  -- where every host is reachable, what the request does tells what the authority of the URL is
  obtain ⟨r, rest, hfirst⟩ := hop_first_call (fun _ => reachable resolved conn) ⟨url, [], ()⟩
  unfold ConnectsAsUrlSays at hrun
  have hs : supportsUrl lib url = true := by
    by_contra hs
    rw [if_neg hs, hfirst] at hrun
    exact List.cons_ne_nil _ _ hrun.1
  rw [if_pos hs] at hrun
  refine ⟨hs, fun sc a hsc ha => ?_⟩
  have hcalls := hrun sc a hsc ha
  have hsplit := hlib.authority hsc ha
  have hhost : (parseAuthority a).host = a := by
    obtain ⟨r', rest', hfirst'⟩ := requestAt_first_call (W := reachable resolved conn) (w := ())
      url (parseAuthority a)
    rw [hfirst, hfirst'] at hcalls
    have hop := (Call.mk.inj (List.cons.inj hcalls).1).1
    rw [← (HttpOp.resolve.inj hop).1, hsplit]
  refine ⟨parseAuthority_of_host hhost, fun hhttps => ?_⟩
  have hssl : lib.supportsHttps = true := by
    rcases supportsUrl_cases hs with hhttp | ⟨_, hssl⟩
    · exact absurd (hhttp.symm.trans hhttps) http_ne_https
    · exact hssl
  rw [hop_calls] at hcalls
  have hname := serverName_of_calls ((hlib.scheme url).trans hhttps) hssl hsplit hcalls
  rw [hhost] at hname
  exact (cStr_eq_iff a).mp hname

/-- Over every network and along every chain of redirects, the requests for a URL connect where it
says exactly when it is supported and its authority is just a host. -/
theorem connects_as_url_says_iff [Nonempty lib.Resolved] [Nonempty lib.Conn]
    (hlib : AuthoritySplit lib) (url : Str) :
    (∀ (S : Type) (net : Str → HttpWorld lib S) (n : Nat) (start q : Requesting S),
      iter (hopStep net) n start = .inl q → q.url = url → ConnectsAsUrlSays net q) ↔
    JustHost lib url := by
  constructor
  · intro h
    obtain ⟨resolved⟩ := ‹Nonempty lib.Resolved›
    obtain ⟨conn⟩ := ‹Nonempty lib.Conn›
    have hrun := h Unit (fun _ => reachable resolved conn) 0 ⟨url, [], ()⟩ _ rfl rfl
    exact justHost_of_reachable hlib hrun
  · rintro ⟨hs, hhost⟩ S net n start q - rfl
    unfold ConnectsAsUrlSays
    rw [if_pos hs]
    intro sc a hsc ha
    obtain ⟨hparse, hnul⟩ := hhost sc a hsc ha
    rw [hop_calls, sendRequest_eq hs hlib (hlib.authority hsc ha) hparse hnul]

theorem webLib_authoritySplit : AuthoritySplit webLib where
  scheme _ := rfl
  authority _ ha := by
    simp only [webLib, ha, Option.getD_some]

instance : Nonempty webLib.Resolved := ⟨([], [])⟩

instance : Nonempty webLib.Conn := ⟨([], [])⟩

theorem connects_as_url_says_host :
    JustHost webLib (lit "http://h/1") ∧
    ∀ (S : Type) (net : Str → HttpWorld webLib S) (n : Nat) (start q : Requesting S),
      iter (hopStep net) n start = .inl q → q.url = lit "http://h/1" → ConnectsAsUrlSays net q := by
  have hjust : JustHost webLib (lit "http://h/1") := by
    refine ⟨by decide, fun sc a _ ha => ?_⟩
    obtain rfl := Option.some.inj (ha.symm.trans (by decide : _ = some (lit "h")))
    exact ⟨rfl, by decide⟩
  exact ⟨hjust, (connects_as_url_says_iff webLib_authoritySplit (lit "http://h/1")).mpr hjust⟩

/-- A port is looked up as part of the host, and an unsupported URL is connected to. -/
theorem port_and_scheme_ignored :
    ¬ ConnectsAsUrlSays (webNet redirectingWeb) ⟨lit "http://h:8080/", [], []⟩ ∧
    ¬ ConnectsAsUrlSays (webNet redirectingWeb) ⟨lit "ftp://h/", [], []⟩ := by
  unfold ConnectsAsUrlSays
  constructor
  · rw [if_pos (by decide)]
    intro h
    have hcalls := h (lit "http") (lit "h:8080") (by decide) (by decide)
    have hop := (Call.mk.inj (List.cons.inj hcalls).1).1
    exact absurd (HttpOp.resolve.inj hop).1 (by decide)
  · rw [if_neg (by decide)]
    intro h
    exact List.cons_ne_nil _ _ h.1

end Acord
