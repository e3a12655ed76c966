import Acord.AssetIsolation

/-! What a request is answered with: a path for each URL that is obtained, and a failing URL that
leaves the others alone, unless touching its temporary file throws. -/

namespace Acord
open Ac Transition

variable {data data' : Dict} {os os' : Nat → Outcomes} {s t : AssetMgr} {i n : Nat}
  {is js : List Nat} {url p : Str} {o : Outcomes} {paths : List Str}

theorem makeAssetsAvailable_append_error {x : Exn} (js : List Nat)
    (h : (makeAssetsAvailable data os is s).1 = .error x) :
    makeAssetsAvailable data os (is ++ js) s = makeAssetsAvailable data os is s := by
  induction is generalizing s x with
  | nil => exact nomatch h
  | cons i is ih =>
    rw [List.cons_append]
    rcases index_getRefStr (data.index i) with ⟨x, hx⟩ | ⟨url, hu⟩
    · rw [makeAssetsAvailable_type hx, makeAssetsAvailable_type hx]
    · cases hr : (s.makeAvailable (os i) url).1 with
      | error x => rw [makeAssetsAvailable_error hu hr, makeAssetsAvailable_error hu hr]
      | ok p =>
        rw [makeAssetsAvailable_ok hu hr] at h ⊢
        cases hrest : (makeAssetsAvailable data os is (s.makeAvailable (os i) url).2).1 with
        | error y => rw [makeAssetsAvailable_ok hu hr, ih hrest]
        | ok ps =>
          rw [hrest] at h
          exact nomatch h

theorem makeAssetsAvailable_append_ok {ps : List Str} (js : List Nat)
    (h : (makeAssetsAvailable data os is s).1 = .ok ps) :
    makeAssetsAvailable data os (is ++ js) s =
      ((makeAssetsAvailable data os js (makeAssetsAvailable data os is s).2).1.map (ps ++ ·),
        (makeAssetsAvailable data os js (makeAssetsAvailable data os is s).2).2) := by
  induction is generalizing s ps with
  | nil =>
    obtain rfl : [] = ps := Except.ok.inj h
    show _ = ((makeAssetsAvailable data os js s).1.map id, _)
    rw [Except.map_id]
    rfl
  | cons i is ih =>
    rw [List.cons_append]
    rcases index_getRefStr (data.index i) with ⟨x, hx⟩ | ⟨url, hu⟩
    · rw [makeAssetsAvailable_type hx] at h
      exact nomatch h
    · cases hr : (s.makeAvailable (os i) url).1 with
      | error x =>
        rw [makeAssetsAvailable_error hu hr] at h
        exact nomatch h
      | ok p =>
        rw [makeAssetsAvailable_ok hu hr] at h
        obtain ⟨qs, hqs, rfl⟩ := map_eq_ok h
        rw [makeAssetsAvailable_ok hu hr, makeAssetsAvailable_ok hu hr, ih hqs]
        cases (makeAssetsAvailable data os js _).1 <;> rfl

def turn (data : Dict) (os : Nat → Outcomes) (s : AssetMgr) (i : Nat) : AssetMgr :=
  (makeAssetsAvailable data os (List.range i) s).2

def Serves (data : Dict) (os : Nat → Outcomes) (s : AssetMgr) (i : Nat) (p : Str) : Prop :=
  ∃ url, data.index i = .ok (.str url) ∧ ((turn data os s i).makeAvailable (os i) url).1 = .ok p

theorem makeAssetsAvailable_cons (h : (makeAssetsAvailable data os (i :: is) s).1 = .ok paths) :
    ∃ url, data.index i = .ok (.str url) ∧ ∃ p, (s.makeAvailable (os i) url).1 = .ok p ∧
      ∃ ps, (makeAssetsAvailable data os is (s.makeAvailable (os i) url).2).1 = .ok ps ∧
        p :: ps = paths := by
  rcases index_getRefStr (data.index i) with ⟨x, hx⟩ | ⟨url, hu⟩
  · rw [makeAssetsAvailable_type hx] at h
    exact nomatch h
  · cases hr : (s.makeAvailable (os i) url).1 with
    | error x =>
      rw [makeAssetsAvailable_error hu hr] at h
      exact nomatch h
    | ok p =>
      rw [makeAssetsAvailable_ok hu hr] at h
      exact ⟨url, hu, p, hr, map_eq_ok h⟩

theorem serves_of_ok (h : (makeAssetsAvailable data os (List.range n) s).1 = .ok paths) :
    List.Forall₂ (Serves data os s) (List.range n) paths := by
  induction n generalizing paths with
  | zero =>
    obtain rfl : [] = paths := Except.ok.inj h
    exact .nil
  | succ n ih =>
    rw [List.range_succ] at h ⊢
    cases hn : (makeAssetsAvailable data os (List.range n) s).1 with
    | error x =>
      rw [makeAssetsAvailable_append_error _ hn, hn] at h
      exact nomatch h
    | ok ps =>
      rw [makeAssetsAvailable_append_ok _ hn] at h
      obtain ⟨qs, hqs, rfl⟩ := map_eq_ok h
      obtain ⟨url, hu, p, hp, _, hnil, rfl⟩ := makeAssetsAvailable_cons hqs
      obtain rfl := Except.ok.inj hnil
      exact List.rel_append (ih hn) (.cons ⟨url, hu, hp⟩ .nil)

theorem ok_of_serves (h : ∀ i < n, ∃ p, Serves data os s i p) :
    ∃ paths, (makeAssetsAvailable data os (List.range n) s).1 = .ok paths := by
  induction n with
  | zero => exact ⟨[], rfl⟩
  | succ n ih =>
    obtain ⟨ps, hps⟩ := ih fun i hi => h i (Nat.lt_succ_of_lt hi)
    obtain ⟨p, url, hu, hp⟩ := h n (Nat.lt_succ_self n)
    have hone : makeAssetsAvailable data os [n] (turn data os s n) = _ :=
      makeAssetsAvailable_ok hu hp
    unfold turn at hone
    rw [List.range_succ, makeAssetsAvailable_append_ok _ hps, hone]
    exact ⟨_, rfl⟩

/-! Without a failing URL. -/

def SameTurn (data data' : Dict) (os os' : Nat → Outcomes) (j k : Nat) : Prop :=
  data'.index k = data.index j ∧ os' k = os j

theorem makeAssetsAvailable_congr (h : List.Forall₂ (SameTurn data data' os os') is js)
    (ha : Alike s t) :
    (makeAssetsAvailable data' os' js t).1 = (makeAssetsAvailable data os is s).1 ∧
      Alike (makeAssetsAvailable data os is s).2 (makeAssetsAvailable data' os' js t).2 := by
  induction h generalizing s t with
  | nil => exact ⟨rfl, ha⟩
  | @cons i j is js hij _ ih =>
    obtain ⟨hidx, ho⟩ := hij
    rcases index_getRefStr (data.index i) with ⟨x, hx⟩ | ⟨url, hu⟩
    · rw [makeAssetsAvailable_type hx, makeAssetsAvailable_type (hidx ▸ hx)]
      exact ⟨rfl, ha⟩
    · have hu' : data'.index j = .ok (.str url) := hidx.trans hu
      obtain ⟨hres, halike⟩ := ha.makeAvailable (os i) url
      rw [← ho] at hres halike
      cases hr : (s.makeAvailable (os' j) url).1 with
      | error x =>
        rw [makeAssetsAvailable_error hu (ho ▸ hr), makeAssetsAvailable_error hu' (hres.trans hr),
          ← ho]
        exact ⟨rfl, halike⟩
      | ok p =>
        rw [makeAssetsAvailable_ok hu (ho ▸ hr), makeAssetsAvailable_ok hu' (hres.trans hr), ← ho]
        obtain ⟨hrest, halike'⟩ := ih halike
        exact ⟨congrArg (Except.map (p :: ·)) hrest, halike'⟩

def skip (os : Nat → Outcomes) (i j : Nat) : Outcomes := if j < i then os j else os (j + 1)

theorem index_eraseIdx_lt {urls : List Str} {j : Nat} (h : j < i) :
    (Dict.strings (urls.eraseIdx i)).index j = (Dict.strings urls).index j ∧
      skip os i j = os j := by
  rw [Dict.index_strings_eq, Dict.index_strings_eq, List.getElem?_eraseIdx_of_lt h]
  exact ⟨rfl, if_pos h⟩

theorem index_eraseIdx_ge {urls : List Str} {j : Nat} (h : i ≤ j) :
    (Dict.strings (urls.eraseIdx i)).index j = (Dict.strings urls).index (j + 1) ∧
      skip os i j = os (j + 1) := by
  rw [Dict.index_strings_eq, Dict.index_strings_eq, List.getElem?_eraseIdx_of_ge h]
  exact ⟨rfl, if_neg (Nat.not_lt.mpr h)⟩

theorem sameTurn_before (urls : List Str) (os : Nat → Outcomes) (i : Nat) :
    List.Forall₂ (SameTurn (.strings urls) (.strings (urls.eraseIdx i)) os (skip os i))
      (List.range i) (List.range i) :=
  List.forall₂_same.mpr fun _ hj => index_eraseIdx_lt (List.mem_range.mp hj)

theorem sameTurn_after (urls : List Str) (os : Nat → Outcomes) (i m : Nat) :
    List.Forall₂ (SameTurn (.strings urls) (.strings (urls.eraseIdx i)) os (skip os i))
      ((List.range m).map (i + 1 + ·)) ((List.range m).map (i + ·)) := by
  rw [List.forall₂_map_left_iff, List.forall₂_map_right_iff]
  apply List.forall₂_same.mpr
  intro j _
  rw [Nat.add_right_comm]
  exact index_eraseIdx_ge (Nat.le_add_right i j)

theorem range_around (i m : Nat) :
    List.range (i + (m + 1)) = List.range i ++ i :: (List.range m).map (i + 1 + ·) := by
  rw [List.range_add, List.range_succ_eq_map]
  simp [Nat.add_assoc, Nat.add_comm 1]

theorem makeAssetsAvailable_eraseIdx {urls : List Str}
    (h : (makeAssetsAvailable (.strings urls) os (List.range urls.length) s).1 = .ok paths)
    (hi : paths[i]? = some []) :
    (makeAssetsAvailable (.strings (urls.eraseIdx i)) (skip os i)
      (List.range (urls.eraseIdx i).length) s).1 =
      .ok (paths.eraseIdx i) := by
  have hlen : paths.length = urls.length := by
    rw [← (serves_of_ok h).length_eq, List.length_range]
  have hlt : i < urls.length := hlen ▸ (List.getElem?_eq_some_iff.mp hi).1
  obtain ⟨m, hm⟩ : ∃ m, urls.length = i + (m + 1) := ⟨urls.length - i - 1, by omega⟩
  have hshort : (urls.eraseIdx i).length = i + m := by
    rw [List.length_eraseIdx_of_lt hlt]
    omega
  -- the loop up to the URL left out, its own turn, and the loop from there on
  rw [hm, range_around] at h
  rw [hshort, List.range_add]
  obtain ⟨hres, halike⟩ := makeAssetsAvailable_congr (sameTurn_before urls os i) (Alike.refl s)
  cases hps : (makeAssetsAvailable (.strings urls) os (List.range i) s).1 with
  | error x =>
    rw [makeAssetsAvailable_append_error _ hps, hps] at h
    exact nomatch h
  | ok ps =>
    have hpslen : ps.length = i := by rw [← (serves_of_ok hps).length_eq, List.length_range]
    rw [makeAssetsAvailable_append_ok _ hps] at h
    obtain ⟨qs, hqs, rfl⟩ := map_eq_ok h
    obtain ⟨url, hu, p, hp, rs, hrs, rfl⟩ := makeAssetsAvailable_cons hqs
    -- the path of the URL left out
    have hnil : p = [] := by simpa [← hpslen] using hi
    subst hnil
    have halike' := (makeAvailable_nil hp).symm.trans halike
    obtain ⟨hrest, _⟩ := makeAssetsAvailable_congr (sameTurn_after urls os i m) halike'
    rw [makeAssetsAvailable_append_ok _ (hres.trans hps)]
    show Except.map _ _ = _
    rw [hrest, hrs, ← hpslen, List.eraseIdx_append_of_length_le (Nat.le_refl _), Nat.sub_self]
    rfl

/-! Frames. -/

def Obtains (o : Outcomes) (url : Str) (s : AssetMgr) : Prop :=
  s.assetUrlToPath url ≠ none ∨ (Fs.basicStat o.stat s.fs (s.targetPath url)).isFile = true ∨
    (Touchable o url s ∧ o.ofsOpen = true ∧ (∃ chunks, Completes o chunks ∧ Lossless o chunks) ∧
      Movable o url s)

/-- If the URL has to be downloaded, touching its temporary file does not throw, and a download
that can be moved to its target lost no byte. -/
def Sound (o : Outcomes) (url : Str) (s : AssetMgr) : Prop :=
  s.assetUrlToPath url = none → (Fs.basicStat o.stat s.fs (s.targetPath url)).isFile = false →
    Touchable o url s ∧
    (o.ofsOpen = true → Movable o url s → ∀ chunks, Completes o chunks → Lossless o chunks)

theorem Sound.serves (h : Sound o url s) : ∃ p, (s.makeAvailable o url).1 = .ok p ∧
    (p ≠ [] → Obtains o url s) := by
  rcases find_cases o url s with ⟨p, hp, hf⟩ | ⟨_, hl, hf⟩ | ⟨hc, hl, hf⟩
  · refine ⟨p, by rw [makeAvailable_ok (congrArg Prod.fst hf)], fun _ => .inl ?_⟩
    rw [hp]
    exact nofun
  · exact ⟨_, by rw [makeAvailable_ok (congrArg Prod.fst hf)], fun _ => .inr (.inl hl)⟩
  · obtain ⟨htouch, hloss⟩ := h hc hl
    rcases download_cases o url s with ⟨e, ht, _⟩ | ⟨_, hr, _⟩ | ⟨hopens, hr, _, hdone⟩
    · have hok := touched_iff.mpr htouch
      simp [ht] at hok
    · have hnil := makeAvailable_ok ((congrArg Prod.fst hf).trans hr)
      exact ⟨[], by rw [hnil], fun hne => absurd rfl hne⟩
    · have hfound := makeAvailable_ok ((congrArg Prod.fst hf).trans hr)
      refine ⟨_, by rw [hfound], fun _ => .inr (.inr ?_)⟩
      obtain ⟨chunks, hchunks, hmv, hfree, _⟩ := hdone.file
      have hmove : Movable o url s := (movable_iff htouch).mpr ⟨hmv, hfree⟩
      have hopen := (opens_iff.mp hopens).2
      exact ⟨htouch, hopen, ⟨chunks, hchunks, hloss hopen hmove chunks hchunks⟩, hmove⟩

theorem Sound.of_serves (h : (s.makeAvailable o url).1 = .ok p) (hp : p ≠ [] → Obtains o url s) :
    Sound o url s := by
  intro hc hl
  have hf : s.find o url = s.download o url := find_download hc hl
  rcases download_cases o url s with ⟨e, _, hr, _⟩ | ⟨ht, hr, _, hblock, _⟩ | ⟨hopens, hr, _, hdone⟩
  · rw [makeAvailable_error ((congrArg Prod.fst hf).trans hr)] at h
    simp at h
  · have htouch := touched_iff.mp ht
    refine ⟨htouch, fun hopen hmove chunks hchunks => ?_⟩
    obtain ⟨hmv, hfree⟩ := (movable_iff htouch).mp hmove
    exact absurd (hblock (opens_iff.mpr ⟨htouch, hopen⟩) chunks hchunks hmv) hfree
  · refine ⟨(opens_iff.mp hopens).1, fun _ _ chunks hchunks => ?_⟩
    rw [makeAvailable_ok ((congrArg Prod.fst hf).trans hr)] at h
    have hne : p ≠ [] := Except.ok.inj h ▸ targetPath_ne_nil s url
    rcases hp hne with hcached | hlocal | ⟨_, _, ⟨chunks', hchunks', hloss⟩, _⟩
    · exact absurd hc hcached
    · simp [hl] at hlocal
    · exact hchunks.unique hchunks' ▸ hloss

structure OnePathEach (lib : FrameLib) (s : AssetMgr) (os : Nat → Outcomes)
    (urls paths : List Str) : Prop where
  length : paths.length = urls.length
  obtained : ∀ i url, urls[i]? = some url → paths[i]? ≠ some [] →
    Obtains (os i) url (turn (.strings urls) os s i)
  isolated : ∀ i, paths[i]? = some [] →
    (runCommand lib s (urlsRequest (urls.eraseIdx i)) (skip os i)).1 =
      .ok (assetsFrame (paths.eraseIdx i))

def AnsweredBy (lib : FrameLib) (s : AssetMgr) (cmd : Ac.Frame) (os : Nat → Outcomes)
    (reply : Ac.Frame) : Prop :=
  (runCommand lib s cmd os).1 = .ok reply ∧
    ∀ urls, cmd.op = Amgr.opMakeAssetsAvailable → cmd.data = .strings urls →
      ∃ paths, reply = assetsFrame paths ∧ OnePathEach lib s os urls paths

def SoundFrame (s : AssetMgr) (cmd : Ac.Frame) (os : Nat → Outcomes) : Prop :=
  cmd.op = Amgr.opMakeAssetsAvailable → cmd.data.size = 0 ∨ ∃ urls, cmd.data = .strings urls ∧
    ∀ i url, urls[i]? = some url → Sound (os i) url (turn cmd.data os s i)

theorem strings_of_index (h : ∀ i < data.size, ∃ url, data.index i = .ok (.str url)) :
    data.size = 0 ∨ ∃ urls, data = .strings urls := by
  rcases Nat.eq_zero_or_pos data.size with h0 | hpos
  · exact .inl h0
  · right
    cases data with
    | array xs =>
      have hstr : ∀ d ∈ xs, ∃ url, d = .str url := by
        intro d hd
        obtain ⟨i, hi, rfl⟩ := List.mem_iff_getElem.mp hd
        obtain ⟨url, hu⟩ := h i hi
        exact ⟨url, by simpa [Dict.index, hi] using hu⟩
      exact Dict.array_strings hstr
    | _ =>
      obtain ⟨url, hu⟩ := h 0 hpos
      simp [Dict.index] at hu

theorem urls_getElem {urls : List Str} {p : Str} (h : Serves (.strings urls) os s i p) :
    ∃ url, urls[i]? = some url ∧
      ((turn (.strings urls) os s i).makeAvailable (os i) url).1 = .ok p := by
  obtain ⟨url, hu, hp⟩ := h
  exact ⟨url, Dict.index_strings_str hu, hp⟩

theorem serves_getElem {is : List Nat} (h : List.Forall₂ (Serves data os s) is paths) {j : Nat}
    (hj : is[j]? = some i) : ∃ p, paths[j]? = some p ∧ Serves data os s i p := by
  induction h generalizing j with
  | nil => simp at hj
  | @cons k p is paths hk _ ih =>
    cases j with
    | zero =>
      obtain rfl : k = i := by simpa using hj
      exact ⟨p, rfl, hk⟩
    | succ j => exact ih (by simpa using hj)

theorem runCommand_strings {lib : FrameLib} (urls : List Str) :
    (runCommand lib s (urlsRequest urls) os).1 =
    (makeAssetsAvailable (.strings urls) os (List.range urls.length) s).1.map assetsFrame := by
  rw [runCommand_op rfl]
  show Except.map _ (makeAssetsAvailable (.strings urls) os
    (List.range (Dict.strings urls).size) s).1 = _
  rw [Dict.size_strings]

theorem AnsweredBy.sound {lib : FrameLib} {cmd reply : Ac.Frame}
    (h : AnsweredBy lib s cmd os reply) : SoundFrame s cmd os := by
  obtain ⟨hr, hpaths⟩ := h
  intro hop
  rw [runCommand_op hop] at hr
  obtain ⟨paths, hps, rfl⟩ := map_eq_ok hr
  have hserves : ∀ i < cmd.data.size, ∃ p, paths[i]? = some p ∧ Serves cmd.data os s i p :=
    fun i hi => serves_getElem (serves_of_ok hps) (List.getElem?_range hi)
  have hindex : ∀ i < cmd.data.size, ∃ url, cmd.data.index i = .ok (.str url) := by
    intro i hi
    obtain ⟨_, _, url, hu, _⟩ := hserves i hi
    exact ⟨url, hu⟩
  apply (strings_of_index hindex).imp id
  rintro ⟨urls, hurls⟩
  refine ⟨urls, hurls, fun i url hi => ?_⟩
  obtain ⟨paths', heq, hone⟩ := hpaths urls hop hurls
  obtain rfl : paths = paths' := Dict.strings_inj (congrArg Frame.data heq)
  have hlt : i < cmd.data.size := by
    rw [hurls, Dict.size_strings]
    exact (List.getElem?_eq_some_iff.mp hi).1
  obtain ⟨p, hp, url', hu', hres⟩ := hserves i hlt
  rw [hurls] at hu'
  obtain rfl : url = url' := Option.some.inj (hi.symm.trans (Dict.index_strings_str hu'))
  apply Sound.of_serves hres
  intro hne
  have hgot := hone.obtained i url hi (by simpa [hp] using hne)
  rwa [← hurls] at hgot

theorem urls_answered (lib : FrameLib) {urls : List Str}
    (h : ∀ i url, urls[i]? = some url → Sound (os i) url (turn (.strings urls) os s i)) :
    ∃ paths, (runCommand lib s (urlsRequest urls) os).1 = .ok (assetsFrame paths) ∧
      OnePathEach lib s os urls paths := by
  have hserves : ∀ i < urls.length, ∃ p, Serves (.strings urls) os s i p := by
    intro i hi
    obtain ⟨p, hp, _⟩ := (h i urls[i] (List.getElem?_eq_getElem hi)).serves
    exact ⟨p, urls[i], Dict.index_strings hi, hp⟩
  obtain ⟨paths, hps⟩ := ok_of_serves hserves
  have hfor := serves_of_ok hps
  refine ⟨paths, ?_, ?_, ?_, ?_⟩
  · rw [runCommand_strings, hps]
    rfl
  · rw [← hfor.length_eq, List.length_range]
  · intro i url hi hne
    have hlt := (List.getElem?_eq_some_iff.mp hi).1
    obtain ⟨p, hp, hserve⟩ := serves_getElem hfor (List.getElem?_range hlt)
    obtain ⟨url', hu', hres⟩ := urls_getElem hserve
    obtain rfl : url = url' := Option.some.inj (hi.symm.trans hu')
    obtain ⟨q, hq, hgot⟩ := (h i url hi).serves
    obtain rfl : p = q := Except.ok.inj (hres.symm.trans hq)
    exact hgot (by simpa [hp] using hne)
  · intro i hi
    rw [runCommand_strings, makeAssetsAvailable_eraseIdx hps hi]
    rfl

theorem onePathEach_nil (lib : FrameLib) (s : AssetMgr) (os : Nat → Outcomes) :
    OnePathEach lib s os [] [] where
  length := rfl
  obtained i url hi := by simp at hi
  isolated i hi := by simp at hi

theorem frame_answered_iff (lib : FrameLib) (s : AssetMgr) (cmd : Ac.Frame) (os : Nat → Outcomes) :
    (∃ reply, AnsweredBy lib s cmd os reply) ↔ SoundFrame s cmd os := by
  constructor
  · rintro ⟨reply, h⟩
    exact h.sound
  · intro hsound
    by_cases hop : cmd.op = Amgr.opMakeAssetsAvailable
    · rcases hsound hop with h0 | ⟨urls, hurls, hall⟩
      · refine ⟨assetsFrame [], ?_, fun urls _ hurls => ⟨[], rfl, ?_⟩⟩
        · rw [runCommand_op hop, h0]
          rfl
        · rw [hurls, Dict.size_strings, List.length_eq_zero_iff] at h0
          subst h0
          exact onePathEach_nil lib s os
      · have hcmd : cmd = urlsRequest urls := by
          cases cmd
          subst hop hurls
          rfl
        subst hcmd
        obtain ⟨paths, hr, hone⟩ := urls_answered lib hall
        refine ⟨assetsFrame paths, hr, fun urls' _ hurls' => ?_⟩
        obtain rfl : urls = urls' := Dict.strings_inj hurls'
        exact ⟨paths, rfl, hone⟩
    · refine ⟨lib.error (lit "Unknown command"), ?_, fun _ h => absurd h hop⟩
      rw [runCommand_unknown hop]

end Acord
