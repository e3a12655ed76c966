import Mathlib.Data.List.DropRight
import Mathlib.Tactic.Common

/-! URI references over bytes, as in RFC 3986: the split of appendix B, the recomposition of
section 5.3, and the resolution of a reference against a base of section 5.2. -/

namespace Rfc3986

abbrev Bytes := List UInt8

def colon : UInt8 := 0x3A
def slash : UInt8 := 0x2F
def question : UInt8 := 0x3F
def hash : UInt8 := 0x23
def dot : UInt8 := 0x2E

structure Uri where
  scheme : Option Bytes
  authority : Option Bytes
  path : Bytes
  query : Option Bytes
  fragment : Option Bytes

def inScheme (c : UInt8) : Bool := c ≠ colon ∧ c ≠ slash ∧ c ≠ question ∧ c ≠ hash

def inAuthority (c : UInt8) : Bool := c ≠ slash ∧ c ≠ question ∧ c ≠ hash

def inPath (c : UInt8) : Bool := c ≠ question ∧ c ≠ hash

def inQuery (c : UInt8) : Bool := c ≠ hash

/-! Each part of a reference is split off its front. -/

def splitScheme (s : Bytes) : Option Bytes × Bytes :=
  match s.takeWhile inScheme, s.dropWhile inScheme with
  | c :: cs, d :: rest => if d = colon then (some (c :: cs), rest) else (none, s)
  | _, _ => (none, s)

def splitAuthority : Bytes → Option Bytes × Bytes
  | c :: d :: rest =>
    if c = slash ∧ d = slash then (some (rest.takeWhile inAuthority), rest.dropWhile inAuthority)
    else (none, c :: d :: rest)
  | s => (none, s)

def splitQuery : Bytes → Option Bytes × Bytes
  | c :: rest =>
    if c = question then (some (rest.takeWhile inQuery), rest.dropWhile inQuery)
    else (none, c :: rest)
  | [] => (none, [])

def splitFragment : Bytes → Option Bytes
  | _ :: rest => some rest
  | [] => none

def parse (s : Bytes) : Uri :=
  let (scheme, s) := splitScheme s
  let (authority, s) := splitAuthority s
  let path := s.takeWhile inPath
  let (query, s) := splitQuery (s.dropWhile inPath)
  ⟨scheme, authority, path, query, splitFragment s⟩

def schemePart (u : Uri) : Bytes := (u.scheme.map (· ++ [colon])).getD []

def authorityPart (u : Uri) : Bytes := (u.authority.map ([slash, slash] ++ ·)).getD []

def queryPart (u : Uri) : Bytes := (u.query.map (question :: ·)).getD []

def fragmentPart (u : Uri) : Bytes := (u.fragment.map (hash :: ·)).getD []

def recompose (u : Uri) : Bytes :=
  schemePart u ++ authorityPart u ++ u.path ++ queryPart u ++ fragmentPart u

/-! What is split off goes back together. -/

theorem splitScheme_append (s : Bytes) :
    (((splitScheme s).1.map (· ++ [colon])).getD []) ++ (splitScheme s).2 = s := by
  have hs := s.takeWhile_append_dropWhile (p := inScheme)
  unfold splitScheme
  split
  · next c cs d rest hc hd =>
    split
    · next hcolon =>
      rw [hc, hd] at hs
      simpa [hcolon] using hs
    · rfl
  · rfl

theorem splitAuthority_append (s : Bytes) :
    (((splitAuthority s).1.map ([slash, slash] ++ ·)).getD []) ++ (splitAuthority s).2 = s := by
  unfold splitAuthority
  split
  · next c d rest =>
    split
    · next h =>
      obtain ⟨rfl, rfl⟩ := h
      simp
    · rfl
  · rfl

theorem splitQuery_append (s : Bytes) :
    (((splitQuery s).1.map (question :: ·)).getD []) ++ (splitQuery s).2 = s := by
  unfold splitQuery
  split
  · next c rest =>
    split
    · next h =>
      obtain rfl := h
      simp
    · rfl
  · rfl

theorem dropWhile_cons_false {α : Type} {p : α → Bool} {s rest : List α} {c : α}
    (h : s.dropWhile p = c :: rest) : p c = false := by
  have hne : s.dropWhile p ≠ [] := by simp [h]
  have hhead := List.head_dropWhile_not p hne
  simpa [h] using hhead

theorem splitFragment_append (s : Bytes) :
    (((splitFragment (splitQuery (s.dropWhile inPath)).2).map (hash :: ·)).getD []) =
      (splitQuery (s.dropWhile inPath)).2 := by
  have hrest : ∀ c rest, (splitQuery (s.dropWhile inPath)).2 = c :: rest → c = hash := by
    intro c rest h
    unfold splitQuery at h
    split at h
    · next d tail hd =>
      split at h
      · have hc := dropWhile_cons_false h
        simpa [inQuery] using hc
      · next hq =>
        obtain ⟨rfl, rfl⟩ := List.cons.inj h
        have hc := dropWhile_cons_false hd
        have hp : d = question ∨ d = hash := by simpa [inPath, or_iff_not_imp_left] using hc
        exact hp.resolve_left hq
    · cases h
  cases hcase : (splitQuery (s.dropWhile inPath)).2 with
  | nil => rfl
  | cons c rest =>
    obtain rfl := hrest c rest hcase
    rfl

theorem recompose_parse (s : Bytes) : recompose (parse s) = s := by
  have hscheme := splitScheme_append s
  have hauth := splitAuthority_append (splitScheme s).2
  have hpath := (splitAuthority (splitScheme s).2).2.takeWhile_append_dropWhile (p := inPath)
  have hquery := splitQuery_append ((splitAuthority (splitScheme s).2).2.dropWhile inPath)
  have hfragment := splitFragment_append (splitAuthority (splitScheme s).2).2
  unfold recompose parse schemePart authorityPart queryPart fragmentPart
  simp only [List.append_assoc]
  rw [hfragment, hquery, hpath, hauth, hscheme]

theorem scheme_append {sc : Bytes} (rest : Bytes) (hne : sc ≠ [])
    (hsc : ∀ c ∈ sc, inScheme c = true) : (parse (sc ++ colon :: rest)).scheme = some sc := by
  have hcolon : inScheme colon = false := by decide
  have htake : (sc ++ colon :: rest).takeWhile inScheme = sc := by
    rw [List.takeWhile_append_of_pos hsc, List.takeWhile_cons_of_neg (by simp [hcolon]),
      List.append_nil]
  have hdrop : (sc ++ colon :: rest).dropWhile inScheme = colon :: rest := by
    rw [List.dropWhile_append_of_pos hsc, List.dropWhile_cons_of_neg (by simp [hcolon])]
  obtain ⟨c, cs, rfl⟩ := List.exists_cons_of_ne_nil hne
  show (splitScheme _).1 = _
  unfold splitScheme
  rw [htake, hdrop]
  rfl

theorem scheme_chars {s sc : Bytes} (h : (parse s).scheme = some sc) :
    sc ≠ [] ∧ ∀ c ∈ sc, inScheme c = true := by
  change (splitScheme s).1 = some sc at h
  unfold splitScheme at h
  split at h
  · next c cs d rest hc hd =>
    split at h
    · obtain rfl := Option.some.inj h
      refine ⟨List.cons_ne_nil c cs, ?_⟩
      rw [← hc]
      intro b hb
      exact List.mem_takeWhile_imp hb
    · cases h
  · cases h

theorem scheme_recompose {u : Uri} {s sc : Bytes} (h : (parse s).scheme = some sc)
    (hu : u.scheme = some sc) : (parse (recompose u)).scheme = some sc := by
  obtain ⟨hne, hsc⟩ := scheme_chars h
  have happ : recompose u =
      sc ++ colon :: (authorityPart u ++ u.path ++ queryPart u ++ fragmentPart u) := by
    simp [recompose, schemePart, hu]
  rw [happ]
  exact scheme_append _ hne hsc

theorem recompose_path_inj {u : Uri} {p : Bytes} :
    recompose { u with path := p } = recompose u ↔ p = u.path := by
  simp [recompose, schemePart, authorityPart, queryPart, fragmentPart]

/-! Resolution. -/

def removeLast (output : Bytes) : Bytes := (output.rdropWhile (· ≠ slash)).dropLast

def dotStep (input output : Bytes) : Bytes × Bytes :=
  if [dot, dot, slash] <+: input then (input.drop 3, output)
  else if [dot, slash] <+: input then (input.drop 2, output)
  else if [slash, dot, slash] <+: input then (input.drop 2, output)
  else if input = [slash, dot] then ([slash], output)
  else if [slash, dot, dot, slash] <+: input then (input.drop 3, removeLast output)
  else if input = [slash, dot, dot] then ([slash], removeLast output)
  else if input = [dot] ∨ input = [dot, dot] then ([], output)
  else ((input.drop 1).dropWhile (· ≠ slash),
    output ++ input.take 1 ++ (input.drop 1).takeWhile (· ≠ slash))

def removeDotsLoop : Nat → Bytes → Bytes → Bytes
  | 0, _, output => output
  | n + 1, input, output =>
    if input = [] then output
    else removeDotsLoop n (dotStep input output).1 (dotStep input output).2

def removeDotSegments (path : Bytes) : Bytes := removeDotsLoop path.length path []

def DotFree (path : Bytes) : Prop := ∀ seg ∈ path.splitOn slash, seg ≠ [dot] ∧ seg ≠ [dot, dot]

instance (path : Bytes) : Decidable (DotFree path) :=
  inferInstanceAs (Decidable (∀ seg ∈ path.splitOn slash, seg ≠ [dot] ∧ seg ≠ [dot, dot]))

theorem dotFree_nil : DotFree [] := by decide

theorem dotFree_segment {seg : Bytes} (h : slash ∉ seg) :
    DotFree seg ↔ seg ≠ [dot] ∧ seg ≠ [dot, dot] := by
  simp only [DotFree, List.splitOn_eq_singleton h, List.forall_mem_singleton]

theorem dotFree_append {seg : Bytes} (h : slash ∉ seg) (rest : Bytes) :
    DotFree (seg ++ slash :: rest) ↔ (seg ≠ [dot] ∧ seg ≠ [dot, dot]) ∧ DotFree rest := by
  simp only [DotFree, List.splitOn_append_cons_self_of_not_mem h, List.forall_mem_cons]

theorem dotFree_slash (rest : Bytes) : DotFree (slash :: rest) ↔ DotFree rest := by
  have h : DotFree ([] ++ slash :: rest) ↔ _ := dotFree_append List.not_mem_nil rest
  simpa using h

theorem dotFree_segment_append {seg rest : Bytes} (h : slash ∉ seg)
    (hrest : rest = [] ∨ ∃ tail, rest = slash :: tail) :
    DotFree (seg ++ rest) ↔ (seg ≠ [dot] ∧ seg ≠ [dot, dot]) ∧ DotFree rest := by
  rcases hrest with rfl | ⟨tail, rfl⟩
  · rw [List.append_nil, dotFree_segment h]
    exact (and_iff_left dotFree_nil).symm
  · rw [dotFree_append h, dotFree_slash]

theorem removeLast_length (output : Bytes) : (removeLast output).length ≤ output.length := by
  have h := (List.rdropWhile_prefix (p := (· ≠ slash)) (l := output)).length_le
  rw [removeLast, List.length_dropLast]
  omega

theorem segment_split (s : Bytes) :
    slash ∉ s.takeWhile (· ≠ slash) ∧
      (s.dropWhile (· ≠ slash) = [] ∨ ∃ tail, s.dropWhile (· ≠ slash) = slash :: tail) := by
  constructor
  · intro h
    simpa using List.mem_takeWhile_imp h
  · cases h : s.dropWhile (· ≠ slash) with
    | nil => exact .inl rfl
    | cons c tail =>
      have hc := dropWhile_cons_false h
      exact .inr ⟨tail, by simpa using hc⟩

theorem not_dotFree_dots {seg : Bytes} (h : seg = [dot] ∨ seg = [dot, dot]) (rest : Bytes) :
    ¬ DotFree (seg ++ slash :: rest) := by
  have hslash : slash ∉ seg := by
    rcases h with rfl | rfl <;> decide
  rw [dotFree_append hslash]
  rintro ⟨⟨h1, h2⟩, _⟩
  exact h.elim h1 h2

theorem drop_length_lt {n : Nat} {s : Bytes} (hn : 0 < n) (hs : s ≠ []) :
    (s.drop n).length < s.length := by
  have hpos := List.length_pos_iff.mpr hs
  rw [List.length_drop]
  omega

def DotFront (input : Bytes) : Prop :=
  [dot, dot, slash] <+: input ∨ [dot, slash] <+: input ∨ [slash, dot, slash] <+: input ∨
    input = [slash, dot] ∨ [slash, dot, dot, slash] <+: input ∨ input = [slash, dot, dot] ∨
    input = [dot] ∨ input = [dot, dot]

theorem DotFront.not_dotFree {input : Bytes} (h : DotFront input) : ¬ DotFree input := by
  rcases h with ⟨t, rfl⟩ | ⟨t, rfl⟩ | ⟨t, rfl⟩ | rfl | ⟨t, rfl⟩ | rfl | rfl | rfl
  · exact not_dotFree_dots (.inr rfl) t
  · exact not_dotFree_dots (.inl rfl) t
  · exact (dotFree_slash _).not.mpr (not_dotFree_dots (.inl rfl) t)
  · decide
  · exact (dotFree_slash _).not.mpr (not_dotFree_dots (.inr rfl) t)
  all_goals decide

theorem DotFront.dotStep {input : Bytes} (h : DotFront input) (output : Bytes) :
    (dotStep input output).1.length < input.length ∧
      (dotStep input output).2.length ≤ output.length := by
  have hlast := removeLast_length output
  have hne : input ≠ [] := by
    rintro rfl
    exact h.not_dotFree dotFree_nil
  unfold Rfc3986.dotStep
  split_ifs with h1 h2 h3 h4 h5 h6 h7
  · exact ⟨drop_length_lt (by decide) hne, Nat.le_refl _⟩
  · exact ⟨drop_length_lt (by decide) hne, Nat.le_refl _⟩
  · exact ⟨drop_length_lt (by decide) hne, Nat.le_refl _⟩
  · subst h4
    exact ⟨Nat.lt_succ_self 1, Nat.le_refl _⟩
  · exact ⟨drop_length_lt (by decide) hne, hlast⟩
  · subst h6
    exact ⟨Nat.lt_of_sub_pos Nat.two_pos, hlast⟩
  · exact ⟨List.length_pos_iff.mpr hne, Nat.le_refl _⟩
  · exact absurd h (by simp only [DotFront, h1, h2, h3, h4, h5, h6, h7, or_self, not_false_eq_true])

theorem dotStep_segment {c : UInt8} {t : Bytes} (h : ¬ DotFront (c :: t)) (output : Bytes) :
    dotStep (c :: t) output =
      (t.dropWhile (· ≠ slash), output ++ c :: t.takeWhile (· ≠ slash)) := by
  simp only [DotFront, not_or] at h
  obtain ⟨h1, h2, h3, h4, h5, h6, h7, h8⟩ := h
  simp [dotStep, h1, h2, h3, h4, h5, h6, h7, h8]

theorem dotFree_segment_iff {c : UInt8} {seg rest : Bytes} (h : ¬ DotFront (c :: (seg ++ rest)))
    (hseg : slash ∉ seg) (hrest : rest = [] ∨ ∃ tail, rest = slash :: tail) :
    DotFree (c :: (seg ++ rest)) ↔ DotFree rest := by
  simp only [DotFront, not_or] at h
  obtain ⟨h1, h2, h3, h4, h5, h6, h7⟩ := h
  by_cases hc : c = slash
  · subst hc
    have hdots : seg ≠ [dot] ∧ seg ≠ [dot, dot] := by
      rcases hrest with rfl | ⟨tail, rfl⟩
      · rw [List.append_nil] at h4 h6
        exact ⟨fun h => h4 (congrArg (slash :: ·) h), fun h => h6 (congrArg (slash :: ·) h)⟩
      · constructor
        · rintro rfl
          exact h3 ⟨tail, rfl⟩
        · rintro rfl
          exact h5 ⟨tail, rfl⟩
    rw [dotFree_slash, dotFree_segment_append hseg hrest]
    exact and_iff_right hdots
  · have hdots : c :: seg ≠ [dot] ∧ c :: seg ≠ [dot, dot] := by
      rcases hrest with rfl | ⟨tail, rfl⟩
      · rw [List.append_nil] at h7
        exact h7
      · constructor
        · intro h
          exact h2 ⟨tail, congrArg (· ++ slash :: tail) h.symm⟩
        · intro h
          exact h1 ⟨tail, congrArg (· ++ slash :: tail) h.symm⟩
    have hcseg : slash ∉ c :: seg := by
      simp [hseg, Ne.symm hc]
    rw [← List.cons_append, dotFree_segment_append hcseg hrest]
    exact and_iff_right hdots

theorem dotStep_cases {input : Bytes} (output : Bytes) (hne : input ≠ []) :
    (¬ DotFree input ∧ (dotStep input output).1.length < input.length ∧
      (dotStep input output).2.length ≤ output.length) ∨
    ∃ moved, input = moved ++ (dotStep input output).1 ∧ moved ≠ [] ∧
      (dotStep input output).2 = output ++ moved ∧
      (DotFree input ↔ DotFree (dotStep input output).1) := by
  by_cases h : DotFront input
  · exact .inl ⟨h.not_dotFree, h.dotStep output⟩
  · right
    obtain ⟨c, t, rfl⟩ := List.exists_cons_of_ne_nil hne
    obtain ⟨hseg, hrest⟩ := segment_split t
    have hsplit := t.takeWhile_append_dropWhile (p := (· ≠ slash))
    rw [dotStep_segment h]
    refine ⟨c :: t.takeWhile (· ≠ slash), congrArg (c :: ·) hsplit.symm, List.cons_ne_nil _ _,
      rfl, ?_⟩
    rw [← hsplit] at h
    have hiff := dotFree_segment_iff h hseg hrest
    rwa [hsplit] at hiff

theorem removeDotsLoop_cases {n : Nat} {input : Bytes} (output : Bytes) (hn : input.length ≤ n) :
    (DotFree input ∧ removeDotsLoop n input output = output ++ input) ∨
    (¬ DotFree input ∧
      (removeDotsLoop n input output).length < input.length + output.length) := by
  induction n generalizing input output with
  | zero =>
    obtain rfl := List.length_eq_zero_iff.mp (Nat.le_zero.mp hn)
    exact .inl ⟨dotFree_nil, (List.append_nil output).symm⟩
  | succ n ih =>
    by_cases hne : input = []
    · subst hne
      exact .inl ⟨dotFree_nil, (List.append_nil output).symm⟩
    have hloop : removeDotsLoop (n + 1) input output =
        removeDotsLoop n (dotStep input output).1 (dotStep input output).2 := if_neg hne
    rw [hloop]
    rcases dotStep_cases output hne with ⟨hdots, hin, hout⟩ | ⟨moved, hmoved, hm, hout, hiff⟩
    · have hn' : (dotStep input output).1.length ≤ n := by omega
      right
      refine ⟨hdots, ?_⟩
      rcases ih (dotStep input output).2 hn' with ⟨_, hrest⟩ | ⟨_, hrest⟩
      · rw [hrest, List.length_append]
        omega
      · omega
    · have hlen : input.length = moved.length + (dotStep input output).1.length := by
        rw [← List.length_append, ← hmoved]
      have hpos : 0 < moved.length := List.length_pos_iff.mpr hm
      have hn' : (dotStep input output).1.length ≤ n := by omega
      rcases ih (dotStep input output).2 hn' with ⟨hfree, hrest⟩ | ⟨hdots, hrest⟩
      · left
        refine ⟨hiff.mpr hfree, ?_⟩
        rw [hrest, hout, List.append_assoc, ← hmoved]
      · right
        refine ⟨fun hfree => hdots (hiff.mp hfree), ?_⟩
        rw [hout, List.length_append] at hrest
        rw [hout]
        omega

theorem removeDotSegments_length (path : Bytes) :
    (removeDotSegments path).length ≤ path.length := by
  rcases removeDotsLoop_cases [] (Nat.le_refl path.length) with ⟨_, h⟩ | ⟨_, h⟩
  · rw [removeDotSegments, h, List.nil_append]
  · exact Nat.le_of_lt h

theorem removeDotSegments_eq_iff (path : Bytes) : removeDotSegments path = path ↔ DotFree path := by
  rcases removeDotsLoop_cases [] (Nat.le_refl path.length) with ⟨hfree, h⟩ | ⟨hdots, h⟩
  · exact iff_of_true h hfree
  · refine iff_of_false ?_ hdots
    intro heq
    rw [removeDotSegments] at heq
    rw [heq] at h
    exact Nat.lt_irrefl _ h

def merge (base : Uri) (path : Bytes) : Bytes :=
  if base.authority ≠ none ∧ base.path = [] then slash :: path
  else base.path.rdropWhile (· ≠ slash) ++ path

def transform (base r : Uri) : Uri :=
  if r.scheme ≠ none then { r with path := removeDotSegments r.path }
  else if r.authority ≠ none then
    { r with scheme := base.scheme, path := removeDotSegments r.path }
  else
    { scheme := base.scheme
      authority := base.authority
      path :=
        if r.path = [] then base.path
        else if [slash] <+: r.path then removeDotSegments r.path
        else removeDotSegments (merge base r.path)
      query := if r.path = [] ∧ r.query = none then base.query else r.query
      fragment := r.fragment }

/-- The reference `r` resolved against the URI `base`. -/
def resolve (base r : Bytes) : Bytes := recompose (transform (parse base) (parse r))

/-! What the resolution leaves as it is, by the form of the reference. -/

theorem scheme_of_slash (tail : Bytes) : (parse (slash :: tail)).scheme = none := rfl

theorem path_of_slash {tail : Bytes} (h : (parse (slash :: tail)).authority = none) :
    [slash] <+: (parse (slash :: tail)).path := by
  have hrest := splitAuthority_append (slash :: tail)
  change (splitAuthority (slash :: tail)).1 = none at h
  rw [h, Option.map_none, Option.getD_none, List.nil_append] at hrest
  have hpath : (parse (slash :: tail)).path =
      (splitAuthority (slash :: tail)).2.takeWhile inPath := rfl
  rw [hpath, hrest]
  exact ⟨tail.takeWhile inPath, rfl⟩

variable {base r sc a : Bytes}

theorem resolve_absolute (h : (parse r).scheme ≠ none) :
    resolve base r = r ↔ DotFree (parse r).path := by
  have hresolve : resolve base r =
      recompose { parse r with path := removeDotSegments (parse r).path } := by
    rw [resolve, transform, if_pos h]
  have hr : resolve base r = r ↔ resolve base r = recompose (parse r) := by
    rw [recompose_parse]
  rw [hr, hresolve, recompose_path_inj, removeDotSegments_eq_iff]

theorem resolve_path (hs : (parse base).scheme = some sc) (ha : (parse base).authority = some a)
    (h : (parse r).scheme = none) (hauth : (parse r).authority = none)
    (hpath : [slash] <+: (parse r).path) :
    resolve base r = sc ++ [colon, slash, slash] ++ a ++ r ↔ DotFree (parse r).path := by
  have hne : (parse r).path ≠ [] := by
    rintro hnil
    rw [hnil] at hpath
    exact absurd hpath.length_le (by decide)
  have hresolve : resolve base r = recompose { parse r with
      scheme := some sc, authority := some a, path := removeDotSegments (parse r).path } := by
    simp only [resolve, transform, h, hauth, hne, hpath, hs, ha, ne_eq, not_true_eq_false,
      if_false, if_true, false_and]
  have hr : sc ++ [colon, slash, slash] ++ a ++ r =
      recompose { parse r with scheme := some sc, authority := some a } := by
    conv_lhs => rw [← recompose_parse r]
    simp [recompose, schemePart, authorityPart, queryPart, fragmentPart, h, hauth]
  have hinj := recompose_path_inj (p := removeDotSegments (parse r).path)
    (u := { parse r with scheme := some sc, authority := some a })
  rw [hresolve, hr, hinj, removeDotSegments_eq_iff]

theorem resolve_scheme (hs : (parse base).scheme = some sc) (h : (parse r).scheme = none) :
    (parse (resolve base r)).scheme = some sc := by
  have htransform : (transform (parse base) (parse r)).scheme = some sc := by
    unfold transform
    rw [if_neg (not_not.mpr h)]
    split_ifs <;> exact hs
  exact scheme_recompose hs htransform

theorem resolve_network_length (hs : (parse base).scheme = some sc) (h : (parse r).scheme = none)
    (hauth : (parse r).authority ≠ none) :
    (resolve base r).length ≤ sc.length + 1 + r.length := by
  have hresolve : resolve base r = recompose { parse r with
      scheme := some sc, path := removeDotSegments (parse r).path } := by
    rw [resolve, transform, if_neg (not_not.mpr h), if_pos hauth, hs]
  have hlen := removeDotSegments_length (parse r).path
  have hr := congrArg List.length (recompose_parse r)
  rw [hresolve]
  simp only [recompose, schemePart, authorityPart, queryPart, fragmentPart, h, List.length_append,
    Option.map_some, Option.map_none, Option.getD_some, Option.getD_none, List.length_nil,
    List.length_cons] at hr ⊢
  omega

/-! The authority, `[userinfo@]host[:port]`, where the host may be an IP literal in brackets. -/

def atSign : UInt8 := 0x40
def openBracket : UInt8 := 0x5B
def closeBracket : UInt8 := 0x5D

structure Authority where
  userinfo : Option Bytes
  host : Bytes
  port : Option Bytes

def splitUserinfo (s : Bytes) : Option Bytes × Bytes :=
  if atSign ∈ s then
    (some (s.rdropWhile (· ≠ atSign)).dropLast, s.rtakeWhile (· ≠ atSign))
  else (none, s)

def splitHost (s : Bytes) : Bytes × Bytes :=
  if [openBracket] <+: s ∧ closeBracket ∈ s then
    (s.takeWhile (· ≠ closeBracket) ++ [closeBracket], (s.dropWhile (· ≠ closeBracket)).tail)
  else (s.takeWhile (· ≠ colon), s.dropWhile (· ≠ colon))

def splitPort : Bytes → Option Bytes
  | c :: rest => if c = colon then some rest else none
  | [] => none

def parseAuthority (s : Bytes) : Authority :=
  let (userinfo, s) := splitUserinfo s
  let (host, s) := splitHost s
  ⟨userinfo, host, splitPort s⟩

theorem splitHost_append (s : Bytes) : (splitHost s).1 ++ (splitHost s).2 = s := by
  unfold splitHost
  split
  · next h =>
    have hs := s.takeWhile_append_dropWhile (p := (· ≠ closeBracket))
    cases hd : s.dropWhile (· ≠ closeBracket) with
    | nil =>
      rw [List.dropWhile_eq_nil_iff] at hd
      have hclose := hd closeBracket h.2
      simp at hclose
    | cons c rest =>
      have hc : c = closeBracket := by simpa using dropWhile_cons_false hd
      rw [hd, hc] at hs
      simpa using hs
  · exact s.takeWhile_append_dropWhile

theorem splitUserinfo_length (s : Bytes) : (splitUserinfo s).2.length ≤ s.length := by
  unfold splitUserinfo
  split
  · exact (List.rtakeWhile_suffix (p := (· ≠ atSign)) (l := s)).length_le
  · exact Nat.le_refl _

theorem parseAuthority_of_host {s : Bytes} (h : (parseAuthority s).host = s) :
    parseAuthority s = ⟨none, s, none⟩ := by
  change (splitHost (splitUserinfo s).2).1 = s at h
  have hhost := splitHost_append (splitUserinfo s).2
  have hlen := splitUserinfo_length s
  rw [h] at hhost
  rw [← hhost, List.length_append] at hlen
  have hrest : (splitHost (splitUserinfo s).2).2 = [] :=
    List.length_eq_zero_iff.mp (by omega)
  have huser : (splitUserinfo s).1 = none := by
    rw [hrest, List.append_nil] at hhost
    unfold splitUserinfo at hhost ⊢
    split
    · next hmem =>
      rw [if_pos hmem] at hhost
      rw [hhost] at hmem
      have hat := List.mem_rtakeWhile_imp hmem
      simp at hat
    · rfl
  have hport : splitPort (splitHost (splitUserinfo s).2).2 = none := by
    rw [hrest]
    rfl
  show (⟨(splitUserinfo s).1, (splitHost (splitUserinfo s).2).1,
    splitPort (splitHost (splitUserinfo s).2).2⟩ : Authority) = _
  rw [huser, h, hport]

end Rfc3986
