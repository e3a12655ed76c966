import Mathlib.Data.List.DropRight
import Mathlib.Algebra.Group.Nat.Even
import Acord.Dict

/-! The command line of the daemon, and the endpoints it listens on then. -/

namespace Acord
open Ac

def Default_WsPort : UInt16 := 7654

structure AppParams where
  wsPort : UInt16 := Default_WsPort
  serveLocalhostOnly : Bool := true

def isSpace (c : UInt8) : Bool := c = 0x20 || (0x09 ≤ c && c ≤ 0x0D)

def isDigit (c : UInt8) : Bool := 0x30 ≤ c && c ≤ 0x39

def digitsValue (digits : Str) : Nat := digits.foldl (fun n c => 10 * n + (c - 0x30).toNat) 0

/-- The C function: blanks, a sign, and the digits up to what is none. There is no saying what it
does when the number is not an `int`. -/
def atoi (s : Str) : Option Int :=
  let s := s.dropWhile isSpace
  let n : Int :=
    match s with
    | 0x2D :: s => -digitsValue (s.takeWhile isDigit)
    | 0x2B :: s => digitsValue (s.takeWhile isDigit)
    | s => digitsValue (s.takeWhile isDigit)
  if -0x80000000 ≤ n ∧ n < 0x80000000 then some n else none

def parseArgs : AppParams → List Str → Option AppParams
  | params, [] => some params
  | params, arg :: rest =>
    if arg = lit "--port" then
      match rest with
      | [] => some params
      | value :: rest =>
        match atoi value with
        | some n => parseArgs { params with wsPort := .ofInt n } rest
        | none => none
    else if arg = lit "--public" then parseArgs { params with serveLocalhostOnly := false } rest
    else parseArgs params rest

inductive Address
  | host (name : Str)
  | IPv4
  deriving DecidableEq

structure EndpointInfo where
  address : Address
  port : UInt16
  deriving DecidableEq

def appEndpoints (params : AppParams) : List EndpointInfo :=
  if params.serveLocalhostOnly then
    [⟨.host (lit "127.0.0.1"), params.wsPort⟩, ⟨.host (lit "::1"), params.wsPort⟩]
  else [⟨.IPv4, params.wsPort⟩]

def acordEndpoints (argv : List Str) : Option (List EndpointInfo) :=
  (parseArgs {} argv).map appEndpoints

def portsBefore (argv : List Str) (i : Nat) : Nat :=
  ((argv.take i).rtakeWhile fun arg => arg = lit "--port").length

def Visited (argv : List Str) (i : Nat) : Prop := Even (portsBefore argv i)

structure TakesPort (argv : List Str) (i : Nat) (value : Str) : Prop where
  option : argv[i]? = some (lit "--port")
  value : argv[i + 1]? = some value
  visited : Visited argv i

section
variable {argv rest : List Str} {arg value : Str} {i j : Nat} {params p : AppParams}

theorem visited_zero (argv : List Str) : Visited argv 0 := by
  simp [Visited, portsBefore]

theorem portsBefore_succ (h : argv[i]? = some arg) :
    portsBefore argv (i + 1) = if arg = lit "--port" then portsBefore argv i + 1 else 0 := by
  unfold portsBefore
  rw [List.take_add_one, h, Option.toList_some, List.rtakeWhile_concat]
  simp only [decide_eq_true_eq]
  split
  · rw [List.length_append, List.length_singleton]
  · rfl

theorem visited_succ (h : argv[i]? = some arg) (harg : arg ≠ lit "--port") :
    Visited argv (i + 1) := by
  unfold Visited
  rw [portsBefore_succ h, if_neg harg]
  exact Even.zero

theorem visited_value (hv : Visited argv i) (hport : argv[i]? = some (lit "--port")) :
    ¬ Visited argv (i + 1) ∧ ∀ value, argv[i + 1]? = some value → Visited argv (i + 2) := by
  have hodd : portsBefore argv (i + 1) = portsBefore argv i + 1 := by
    rw [portsBefore_succ hport, if_pos rfl]
  have hskip : ¬ Visited argv (i + 1) := by
    unfold Visited at hv ⊢
    rw [hodd, Nat.even_add_one]
    exact not_not.mpr hv
  refine ⟨hskip, fun value hvalue => ?_⟩
  by_cases hp : value = lit "--port"
  · unfold Visited at hskip ⊢
    rw [portsBefore_succ hvalue, if_pos hp, Nat.even_add_one]
    exact hskip
  · exact visited_succ hvalue hp

structure Parsed (argv : List Str) (i : Nat) (params p : AppParams) : Prop where
  localhost : p.serveLocalhostOnly = true ↔ params.serveLocalhostOnly = true ∧
    ∀ j ≥ i, argv[j]? = some (lit "--public") → ¬ Visited argv j
  port : (p.wsPort = params.wsPort ∧ ∀ j ≥ i, ∀ value, ¬ TakesPort argv j value) ∨
    ∃ j ≥ i, ∃ value n, TakesPort argv j value ∧ (∀ k w, TakesPort argv k w → k ≤ j) ∧
      atoi value = some n ∧ p.wsPort = .ofInt n

theorem public_ne_port : lit "--public" ≠ lit "--port" := by decide

theorem Parsed.stop (hpublic : ∀ j ≥ i, argv[j]? ≠ some (lit "--public"))
    (hport : ∀ j ≥ i, ∀ value, ¬ TakesPort argv j value) : Parsed argv i params params where
  localhost := ⟨fun h => ⟨h, fun j hj hp => absurd hp (hpublic j hj)⟩, fun h => h.1⟩
  port := .inl ⟨rfl, hport⟩

theorem Parsed.flag (hv : Visited argv i) (harg : argv[i]? = some arg) (hne : arg ≠ lit "--port")
    (h : Parsed argv (i + 1)
      (if arg = lit "--public" then { params with serveLocalhostOnly := false } else params) p) :
    Parsed argv i params p where
  localhost := by
    rw [h.localhost]
    constructor
    · rintro ⟨hlocal, hrest⟩
      have hnot : arg ≠ lit "--public" := fun he => by simp [he] at hlocal
      rw [if_neg hnot] at hlocal
      refine ⟨hlocal, fun j hj hp => ?_⟩
      rcases Nat.eq_or_lt_of_le hj with rfl | hlt
      · exact absurd (Option.some.inj (harg.symm.trans hp)) hnot
      · exact hrest j hlt hp
    · rintro ⟨hlocal, hall⟩
      have hnot : arg ≠ lit "--public" := fun he => hall i (Nat.le_refl i) (he ▸ harg) hv
      rw [if_neg hnot]
      exact ⟨hlocal, fun j hj => hall j (Nat.le_of_succ_le hj)⟩
  port := by
    have hsame : (if arg = lit "--public" then { params with serveLocalhostOnly := false }
        else params).wsPort = params.wsPort := by split <;> rfl
    rcases h.port with ⟨hp, hnone⟩ | ⟨j, hj, hlast⟩
    · refine .inl ⟨hp.trans hsame, fun j hj value ht => ?_⟩
      rcases Nat.eq_or_lt_of_le hj with rfl | hlt
      · exact hne (Option.some.inj (harg.symm.trans ht.option))
      · exact hnone j hlt value ht
    · exact .inr ⟨j, Nat.le_of_succ_le hj, hlast⟩

theorem Parsed.taken {n : Int} (hv : Visited argv i) (hport : argv[i]? = some (lit "--port"))
    (hvalue : argv[i + 1]? = some value) (hn : atoi value = some n)
    (h : Parsed argv (i + 2) { params with wsPort := .ofInt n } p) : Parsed argv i params p := by
  have hskip := (visited_value hv hport).1
  refine ⟨h.localhost.trans (and_congr_right fun _ => ?_), ?_⟩
  · constructor
    · intro hrest j hj hp
      obtain rfl | rfl | hlt : j = i ∨ j = i + 1 ∨ j ≥ i + 2 := by omega
      · exact absurd (Option.some.inj (hp.symm.trans hport)) public_ne_port
      · exact hskip
      · exact hrest j hlt hp
    · intro hall j hj
      exact hall j (by omega)
  · rcases h.port with ⟨hp, hnone⟩ | ⟨j, hj, hlast⟩
    · refine .inr ⟨i, Nat.le_refl i, value, n, ⟨hport, hvalue, hv⟩, fun k w ht => ?_, hn, hp⟩
      by_contra hlt
      obtain rfl | hle : k = i + 1 ∨ k ≥ i + 2 := by omega
      · exact hskip ht.visited
      · exact hnone k hle w ht
    · exact .inr ⟨j, by omega, hlast⟩

def BadPort (argv : List Str) (i : Nat) : Prop :=
  ∃ j ≥ i, ∃ value, TakesPort argv j value ∧ atoi value = none

theorem badPort_flag (harg : argv[i]? = some arg) (hne : arg ≠ lit "--port") :
    BadPort argv (i + 1) ↔ BadPort argv i := by
  constructor
  · rintro ⟨j, hj, hbad⟩
    exact ⟨j, Nat.le_of_succ_le hj, hbad⟩
  · rintro ⟨j, hj, value, ht, hbad⟩
    rcases Nat.eq_or_lt_of_le hj with rfl | hlt
    · exact absurd (Option.some.inj (harg.symm.trans ht.option)) hne
    · exact ⟨j, hlt, value, ht, hbad⟩

theorem badPort_taken {n : Int} (hv : Visited argv i) (hport : argv[i]? = some (lit "--port"))
    (hvalue : argv[i + 1]? = some value) (hn : atoi value = some n) :
    BadPort argv (i + 2) ↔ BadPort argv i := by
  constructor
  · rintro ⟨j, hj, hbad⟩
    exact ⟨j, by omega, hbad⟩
  · rintro ⟨j, hj, w, ht, hbad⟩
    obtain rfl | rfl | hlt : j = i ∨ j = i + 1 ∨ j ≥ i + 2 := by omega
    · obtain rfl := Option.some.inj (hvalue.symm.trans ht.value)
      rw [hn] at hbad
      cases hbad
    · exact absurd ht.visited (visited_value hv hport).1
    · exact ⟨j, hlt, w, ht, hbad⟩

theorem no_value (h : argv.length ≤ i + 1) : ∀ j ≥ i, ∀ value, ¬ TakesPort argv j value := by
  intro j hj value ht
  obtain ⟨hlt, _⟩ := List.getElem?_eq_some_iff.mp ht.value
  omega

theorem not_badPort (h : ∀ j ≥ i, ∀ value, ¬ TakesPort argv j value) : ¬ BadPort argv i := by
  rintro ⟨j, hj, value, ht, _⟩
  exact h j hj value ht

theorem drop_eq_cons (h : argv.drop i = arg :: rest) :
    argv[i]? = some arg ∧ argv.drop (i + 1) = rest := by
  constructor
  · rw [← List.head?_drop, h, List.head?_cons]
  · rw [← List.drop_drop, h, List.drop_succ_cons, List.drop_zero]

/-- By induction on what is left: each argument is visited exactly when it is no other's value. -/
theorem parseArgs_spec (hrest : argv.drop i = rest) (hv : Visited argv i) :
    (parseArgs params rest = none ↔ BadPort argv i) ∧
      ∀ p, parseArgs params rest = some p → Parsed argv i params p := by
  fun_induction parseArgs params rest generalizing i with
  | case1 params =>
    have hlen : argv.length ≤ i := List.drop_eq_nil_iff.mp hrest
    have hnone := no_value (Nat.le_succ_of_le hlen)
    refine ⟨iff_of_false (Option.some_ne_none params) (not_badPort hnone), ?_⟩
    rintro p ⟨⟩
    refine .stop (fun j hj hp => ?_) hnone
    obtain ⟨hlt, _⟩ := List.getElem?_eq_some_iff.mp hp
    omega
  | case2 params =>
    obtain ⟨hport, hend⟩ := drop_eq_cons hrest
    have hlen : argv.length ≤ i + 1 := List.drop_eq_nil_iff.mp hend
    have hnone := no_value hlen
    refine ⟨iff_of_false (Option.some_ne_none params) (not_badPort hnone), ?_⟩
    rintro p ⟨⟩
    refine .stop (fun j hj hp => ?_) hnone
    obtain ⟨hlt, _⟩ := List.getElem?_eq_some_iff.mp hp
    obtain rfl : j = i := by omega
    exact public_ne_port (Option.some.inj (hp.symm.trans hport))
  | case3 params value rest n hn ih =>
    obtain ⟨hport, hrest'⟩ := drop_eq_cons hrest
    obtain ⟨hvalue, hrest''⟩ := drop_eq_cons hrest'
    obtain ⟨hnone, hsome⟩ := ih hrest'' ((visited_value hv hport).2 value hvalue)
    exact ⟨hnone.trans (badPort_taken hv hport hvalue hn),
      fun p h => (hsome p h).taken hv hport hvalue hn⟩
  | case4 params value rest hn =>
    obtain ⟨hport, hrest'⟩ := drop_eq_cons hrest
    obtain ⟨hvalue, _⟩ := drop_eq_cons hrest'
    refine ⟨⟨fun _ => ⟨i, Nat.le_refl i, value, ⟨hport, hvalue, hv⟩, hn⟩, fun _ => rfl⟩, ?_⟩
    intro p h
    cases h
  | case5 params rest hne ih =>
    obtain ⟨harg, hrest'⟩ := drop_eq_cons hrest
    obtain ⟨hnone, hsome⟩ := ih hrest' (visited_succ harg hne)
    refine ⟨hnone.trans (badPort_flag harg hne), fun p h => .flag hv harg hne ?_⟩
    rw [if_pos rfl]
    exact hsome p h
  | case6 params arg rest hport hpublic ih =>
    obtain ⟨harg, hrest'⟩ := drop_eq_cons hrest
    obtain ⟨hnone, hsome⟩ := ih hrest' (visited_succ harg hport)
    refine ⟨hnone.trans (badPort_flag harg hport), fun p h => .flag hv harg hport ?_⟩
    rw [if_neg hpublic]
    exact hsome p h

theorem isDigit_plain {c : UInt8} (h : isDigit c = true) :
    isSpace c = false ∧ c ≠ 0x2D ∧ c ≠ 0x2B := by
  simp only [isDigit, isSpace, Bool.and_eq_true, decide_eq_true_eq, Bool.or_eq_false_iff,
    Bool.and_eq_false_iff, decide_eq_false_iff_not, UInt8.le_iff_toNat_le, ne_eq,
    ← UInt8.toNat_inj] at h ⊢
  simp at h ⊢
  omega

theorem atoi_digits {digits : Str} (h : ∀ c ∈ digits, isDigit c = true)
    (hlt : digitsValue digits < 2 ^ 31) : atoi digits = some (digitsValue digits : Int) := by
  have htake : digits.takeWhile isDigit = digits := List.takeWhile_eq_self_iff.mpr h
  have hdrop : digits.dropWhile isSpace = digits := by
    cases digits with
    | nil => rfl
    | cons c rest =>
      rw [List.dropWhile_cons_of_neg]
      simp [(isDigit_plain (h c List.mem_cons_self)).1]
  unfold atoi
  rw [hdrop]
  dsimp only
  split
  · exact absurd rfl (isDigit_plain (h _ List.mem_cons_self)).2.1
  · exact absurd rfl (isDigit_plain (h _ List.mem_cons_self)).2.2
  · rw [htake]
    exact if_pos (by omega)

/-- Where the daemon listens: on this host only, unless some `--public` is no value of a `--port`;
on the last `--port` that is none either, cut to 16 bits, or on the default one. -/
theorem served_where (argv : List Str) :
    (acordEndpoints argv = none ↔ BadPort argv 0) ∧
    ∀ endpoints, acordEndpoints argv = some endpoints → ∃ port,
      ((∀ i, argv[i]? = some (lit "--public") → ¬ Visited argv i) ∧
          endpoints = [⟨.host (lit "127.0.0.1"), port⟩, ⟨.host (lit "::1"), port⟩] ∨
        (∃ i, argv[i]? = some (lit "--public") ∧ Visited argv i) ∧
          endpoints = [⟨.IPv4, port⟩]) ∧
      ((port = Default_WsPort ∧ ∀ i value, ¬ TakesPort argv i value) ∨
        ∃ i value n, TakesPort argv i value ∧ (∀ k w, TakesPort argv k w → k ≤ i) ∧
          atoi value = some n ∧ port = .ofInt n ∧
          ((∀ c ∈ value, isDigit c = true) → digitsValue value < 2 ^ 16 →
            port.toNat = digitsValue value)) := by
  have hspec : (parseArgs {} argv = none ↔ BadPort argv 0) ∧
      ∀ p, parseArgs {} argv = some p → Parsed argv 0 {} p :=
    parseArgs_spec List.drop_zero (visited_zero argv)
  obtain ⟨hnone, hsome⟩ := hspec
  refine ⟨Option.map_eq_none_iff.trans hnone, fun endpoints h => ?_⟩
  obtain ⟨p, hp, rfl⟩ := Option.map_eq_some_iff.mp h
  obtain ⟨hlocal, hport⟩ := hsome p hp
  refine ⟨p.wsPort, ?_, ?_⟩
  · cases hserve : p.serveLocalhostOnly with
    | true =>
      refine .inl ⟨fun i hi => ?_, by rw [appEndpoints, hserve, if_pos rfl]⟩
      exact (hlocal.mp hserve).2 i (Nat.zero_le i) hi
    | false =>
      refine .inr ⟨?_, by rw [appEndpoints, hserve, if_neg Bool.false_ne_true]⟩
      by_contra hno
      refine Bool.false_ne_true (hserve.symm.trans (hlocal.mpr ⟨rfl, fun j _ hj hv => ?_⟩))
      exact hno ⟨j, hj, hv⟩
  · rcases hport with ⟨hdefault, hno⟩ | ⟨j, _, value, n, ht, hlast, hn, hp⟩
    · exact .inl ⟨hdefault, fun i => hno i (Nat.zero_le i)⟩
    · refine .inr ⟨j, value, n, ht, hlast, hn, hp, fun hdigits hlt => ?_⟩
      have hvalue := atoi_digits hdigits (Nat.lt_trans hlt (by decide))
      obtain rfl := Option.some.inj (hn.symm.trans hvalue)
      rw [hp]
      simp only [UInt16.ofInt, UInt16.toNat_ofNat']
      omega

example : acordEndpoints [lit "acord", lit "--port", lit "--public", lit "--port", lit "70000"] =
    some [⟨.host (lit "127.0.0.1"), 4464⟩, ⟨.host (lit "::1"), 4464⟩] := by decide

end
end Acord
