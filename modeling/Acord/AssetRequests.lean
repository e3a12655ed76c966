import Mathlib.Data.List.Forall2
import Acord.AssetMgr

/-! Requests and runs: what serving one URL keeps and promises, carried over the loop of a request
and over the steps of all sessions. -/

namespace Acord
open Ac Transition

variable {data : Dict} {os : Nat → Outcomes} {s t : AssetMgr} {i : Nat} {is : List Nat}
  {url p : Str}

theorem index_getRefStr (e : Except Exn Dict) :
    (∃ x, e.bind Dict.getRefStr = .error x) ∨ ∃ url, e = .ok (.str url) := by
  cases e with
  | error x => exact .inl ⟨x, rfl⟩
  | ok d =>
    cases d with
    | str url => exact .inr ⟨url, rfl⟩
    | _ => exact .inl ⟨_, rfl⟩

theorem map_eq_ok {α : Type} {e : Except Exn (List Str)} {f : List Str → α} {x : α}
    (h : e.map f = .ok x) : ∃ ps, e = .ok ps ∧ f ps = x := by
  cases e with
  | error x => exact nomatch h
  | ok ps => exact ⟨ps, rfl, Except.ok.inj h⟩

theorem makeAssetsAvailable_type {x : Exn} (h : (data.index i).bind Dict.getRefStr = .error x) :
    makeAssetsAvailable data os (i :: is) s = (.error x, s) := by
  simp only [makeAssetsAvailable, h]

theorem makeAssetsAvailable_error {x : Exn} (hu : data.index i = .ok (.str url))
    (h : (s.makeAvailable (os i) url).1 = .error x) :
    makeAssetsAvailable data os (i :: is) s = (.error x, (s.makeAvailable (os i) url).2) := by
  have hb : (data.index i).bind Dict.getRefStr = .ok url := by rw [hu]; rfl
  cases hm : s.makeAvailable (os i) url with
  | mk res t =>
    rw [hm] at h
    obtain rfl : res = .error x := h
    simp only [makeAssetsAvailable, hb, hm]

theorem makeAssetsAvailable_ok (hu : data.index i = .ok (.str url))
    (h : (s.makeAvailable (os i) url).1 = .ok p) :
    makeAssetsAvailable data os (i :: is) s =
      ((makeAssetsAvailable data os is (s.makeAvailable (os i) url).2).1.map (p :: ·),
        (makeAssetsAvailable data os is (s.makeAvailable (os i) url).2).2) := by
  have hb : (data.index i).bind Dict.getRefStr = .ok url := by rw [hu]; rfl
  cases hm : s.makeAvailable (os i) url with
  | mk res t =>
    rw [hm] at h
    obtain rfl : res = .ok p := h
    simp only [makeAssetsAvailable, hb, hm]
    cases makeAssetsAvailable data os is t with
    | mk res u => cases res <;> rfl

theorem runCommand_op {lib : FrameLib} {cmd : Ac.Frame} (h : cmd.op = Amgr.opMakeAssetsAvailable) :
    runCommand lib s cmd os =
      ((makeAssetsAvailable cmd.data os (List.range cmd.data.size) s).1.map assetsFrame,
        (makeAssetsAvailable cmd.data os (List.range cmd.data.size) s).2) := by
  unfold runCommand
  rw [if_neg (not_not_intro h)]
  cases makeAssetsAvailable cmd.data os (List.range cmd.data.size) s with
  | mk res t => cases res <;> rfl

theorem runCommand_unknown {lib : FrameLib} {cmd : Ac.Frame}
    (h : cmd.op ≠ Amgr.opMakeAssetsAvailable) :
    runCommand lib s cmd os = (.ok (lib.error (lit "Unknown command")), s) := if_pos h

/-- A rule about serving one URL, for calls whose outcomes meet `P`: it keeps the invariant `I`,
takes a state to one `K` relates it to, and its path is `G`, as it still is in every later state. -/
structure UrlRule (P : Str → Outcomes → Prop) (I : AssetMgr → Prop) (K : AssetMgr → AssetMgr → Prop)
    (G : AssetMgr → Str → Str → Prop) : Prop where
  refl : ∀ s, K s s
  trans : ∀ {s t u}, K s t → K t u → K s u
  stable : ∀ {s t url p}, K s t → G s url p → G t url p
  serve : ∀ {o url s}, P url o → I s → I (s.makeAvailable o url).2 ∧ K s (s.makeAvailable o url).2 ∧
    ∀ p, (s.makeAvailable o url).1 = .ok p → G (s.makeAvailable o url).2 url p

def AllOutcomes (P : Str → Outcomes → Prop) (data : Dict) (os : Nat → Outcomes) : Prop :=
  ∀ i url, data.index i = .ok (.str url) → P url (os i)

def PolledWith (P : Str → Outcomes → Prop) (_ : AssetService) : AssetEvent → Prop
  | .polled _ cmd os => AllOutcomes P cmd.data os
  | _ => True

def AnyOutcomes (_ : Str) (_ : Outcomes) : Prop := True

theorem polledWith_any (s : AssetService) (e : AssetEvent) : PolledWith AnyOutcomes s e := by
  cases e with
  | polled => exact fun _ _ _ => trivial
  | pushed | closed => trivial

def RepliesWith (G : AssetMgr → Str → Str → Prop) (s : AssetMgr) (cmd reply : Ac.Frame) : Prop :=
  ∀ urls, cmd.op = Amgr.opMakeAssetsAvailable → cmd.data = .strings urls →
    ∃ paths, reply = assetsFrame paths ∧ List.Forall₂ (G s) urls paths

namespace UrlRule
variable {P : Str → Outcomes → Prop} {I : AssetMgr → Prop} {K : AssetMgr → AssetMgr → Prop}
  {G : AssetMgr → Str → Str → Prop}

theorem loop (R : UrlRule P I K G) (ho : AllOutcomes P data os) (is : List Nat) (hi : I s) :
    I (makeAssetsAvailable data os is s).2 ∧ K s (makeAssetsAvailable data os is s).2 ∧
      ∀ paths, (makeAssetsAvailable data os is s).1 = .ok paths →
        List.Forall₂ (fun i p => ∃ url, data.index i = .ok (.str url) ∧
          G (makeAssetsAvailable data os is s).2 url p) is paths := by
  induction is generalizing s with
  | nil =>
    refine ⟨hi, R.refl s, fun paths h => ?_⟩
    obtain rfl : [] = paths := Except.ok.inj h
    exact .nil
  | cons i is ih =>
    rcases index_getRefStr (data.index i) with ⟨x, hx⟩ | ⟨url, hu⟩
    · rw [makeAssetsAvailable_type hx]
      exact ⟨hi, R.refl s, fun _ h => nomatch h⟩
    · obtain ⟨hi', hkept, hgood⟩ := R.serve (ho i url hu) hi
      cases hr : (s.makeAvailable (os i) url).1 with
      | error x =>
        rw [makeAssetsAvailable_error hu hr]
        exact ⟨hi', hkept, fun _ h => nomatch h⟩
      | ok p =>
        obtain ⟨hi'', hkept', hpaths⟩ := ih hi'
        rw [makeAssetsAvailable_ok hu hr]
        refine ⟨hi'', R.trans hkept hkept', fun paths h => ?_⟩
        obtain ⟨ps, hps, rfl⟩ := map_eq_ok h
        exact .cons ⟨url, hu, R.stable hkept' (hgood p hr)⟩ (hpaths ps hps)

theorem command {cmd : Ac.Frame} (R : UrlRule P I K G) (lib : FrameLib)
    (ho : AllOutcomes P cmd.data os) (hi : I s) :
    I (runCommand lib s cmd os).2 ∧ K s (runCommand lib s cmd os).2 ∧
      ∀ reply, (runCommand lib s cmd os).1 = .ok reply →
        RepliesWith G (runCommand lib s cmd os).2 cmd reply := by
  obtain ⟨hi', hkept, hpaths⟩ := R.loop ho (List.range cmd.data.size) hi
  by_cases hop : cmd.op = Amgr.opMakeAssetsAvailable
  · rw [runCommand_op hop]
    refine ⟨hi', hkept, fun reply hr urls _ hurls => ?_⟩
    obtain ⟨paths, hps, rfl⟩ := map_eq_ok hr
    refine ⟨paths, rfl, ?_⟩
    have hsize : cmd.data.size = urls.length := by rw [hurls, Dict.size_strings]
    have hfor := hpaths paths hps
    rw [List.forall₂_iff_get] at hfor ⊢
    obtain ⟨hlen, hget⟩ := hfor
    rw [List.length_range, hsize] at hlen
    refine ⟨hlen, fun i h₁ h₂ => ?_⟩
    obtain ⟨url, hu, hgood⟩ := hget i (by simpa [hsize] using h₁) h₂
    have hidx : cmd.data.index i = .ok (.str urls[i]) := by rw [hurls, Dict.index_strings h₁]
    rw [List.get_eq_getElem, List.getElem_range, hidx] at hu
    obtain rfl : urls[i] = url := Dict.str.inj (Except.ok.inj hu)
    exact hgood
  · rw [runCommand_unknown hop]
    exact ⟨hi, R.refl s, fun _ _ _ h => absurd h hop⟩

end UrlRule

namespace AssetService
variable {s : AssetService} {c : AssetSession} {j : Nat}

theorem put_same (s : AssetService) (i : Nat) (c : AssetSession) : (s.put i c).sessions i = c := by
  show Function.update s.sessions i c i = c
  rw [Function.update_self]

theorem put_other (h : j ≠ i) : (s.put i c).sessions j = s.sessions j := by
  show Function.update s.sessions i c j = s.sessions j
  rw [Function.update_of_ne h]

end AssetService

theorem after_replying {cmd cmd' reply : Ac.Frame} {r : Except Exn Ac.Frame}
    (h : AssetSession.after cmd r = .replying cmd' reply) : cmd' = cmd ∧ r = .ok reply := by
  cases r with
  | ok f =>
    obtain ⟨rfl, rfl⟩ := AssetSession.replying.inj h
    exact ⟨rfl, rfl⟩
  | error e =>
    cases e with
    | streamClosed => exact nomatch h
    | error w => exact nomatch h

structure ServiceInv (I : AssetMgr → Prop) (G : AssetMgr → Str → Str → Prop)
    (s : AssetService) : Prop where
  mgr : I s.mgr
  replies : ∀ i cmd reply, s.sessions i = .replying cmd reply → RepliesWith G s.mgr cmd reply

namespace UrlRule
variable {P : Str → Outcomes → Prop} {I : AssetMgr → Prop} {K : AssetMgr → AssetMgr → Prop}
  {G : AssetMgr → Str → Str → Prop} {lib : FrameLib} {dir : AssetDir} {fs : Fs}

theorem replies_stable {cmd reply : Ac.Frame} (R : UrlRule P I K G) (hk : K s t)
    (h : RepliesWith G s cmd reply) : RepliesWith G t cmd reply := by
  intro urls hop hurls
  obtain ⟨paths, hp, hfor⟩ := h urls hop hurls
  exact ⟨paths, hp, hfor.imp fun _ _ => R.stable hk⟩

theorem put_inv {s : AssetService} {c : AssetSession} (hi : ServiceInv I G s)
    (hc : ∀ cmd reply, c ≠ .replying cmd reply) : ServiceInv I G (s.put i c) where
  mgr := hi.mgr
  replies j cmd reply h := by
    by_cases hj : j = i
    · rw [hj, AssetService.put_same] at h
      exact absurd h (hc cmd reply)
    · rw [AssetService.put_other hj] at h
      exact hi.replies j cmd reply h

theorem step {s t : AssetService} {e : AssetEvent} (R : UrlRule P I K G) (hi : ServiceInv I G s)
    (he : PolledWith P s e) (h : AssetStep lib s e t) : ServiceInv I G t ∧ K s.mgr t.mgr := by
  cases h with
  | greeted => exact ⟨put_inv hi (fun _ _ => nofun), R.refl _⟩
  | replied => exact ⟨put_inv hi (fun _ _ => nofun), R.refl _⟩
  | closed => exact ⟨put_inv hi (fun _ _ => nofun), R.refl _⟩
  | @polled i cmd os due =>
    obtain ⟨hmgr, hkept, hgood⟩ := R.command lib he hi.mgr
    refine ⟨⟨hmgr, fun j cmd' reply hj => ?_⟩, hkept⟩
    by_cases hji : j = i
    · rw [hji, AssetService.put_same] at hj
      obtain ⟨rfl, hr⟩ := after_replying hj
      exact hgood reply hr
    · rw [AssetService.put_other hji] at hj
      exact R.replies_stable hkept (hi.replies j cmd' reply hj)

theorem run {tr : List AssetEvent} {s : AssetService} (R : UrlRule P I K G)
    (h0 : I (.construct dir fs)) (h : ((assetService lib dir fs).guard (PolledWith P)).Run tr s) :
    ServiceInv I G s := by
  refine System.Run.invariant ?_ ?_ h
  · rintro s rfl
    exact ⟨h0, fun _ _ _ h => nomatch h⟩
  · intro s e t hi hs
    exact (R.step hi hs.1 hs.2).1

end UrlRule

/-! A first request to a service over an empty asset directory. -/

def urlsRequest (urls : List Str) : Ac.Frame := ⟨Amgr.opMakeAssetsAvailable, .strings urls⟩

def sampleFrames : FrameLib where
  stateChange id := ⟨lit "state", .str id⟩
  error text := ⟨lit "error", .str text⟩

def sampleMgr : AssetMgr := .construct ⟨lit "/a", by decide⟩ fun _ => none

def sampleOutcomes (room : Nat) : Outcomes :=
  ⟨true, true, true, true, .ok [.ok [1, 2]], fun _ => room, 0, true⟩

def sampleService : AssetService := ⟨sampleMgr, fun _ => .greeting⟩

def servedFirst (m : AssetMgr) (urls : List Str) (os : Nat → Outcomes) : AssetService :=
  ({ (⟨m, fun _ => .greeting⟩ : AssetService).put 0 .polling with
    mgr := (runCommand sampleFrames m (urlsRequest urls) os).2 } : AssetService).put 0
      (.after (urlsRequest urls) (runCommand sampleFrames m (urlsRequest urls) os).1)

def sampleServed : List Str → (Nat → Outcomes) → AssetService := servedFirst sampleMgr

theorem servedFirst_run {Q : AssetService → AssetEvent → Prop} {dir : AssetDir} {fs : Fs}
    {urls : List Str} {os : Nat → Outcomes} {s : AssetService}
    (hs : s = ⟨.construct dir fs, fun _ => .greeting⟩)
    (h1 : Q s (.pushed 0 (sampleFrames.stateChange Amgr.stateId)))
    (h2 : Q (s.put 0 .polling) (.polled 0 (urlsRequest urls) os)) :
    ((assetService sampleFrames dir fs).guard Q).Run
      [.pushed 0 (sampleFrames.stateChange Amgr.stateId), .polled 0 (urlsRequest urls) os]
      (servedFirst (.construct dir fs) urls os) := by
  subst hs
  have h0 := System.Run.start (M := (assetService sampleFrames dir fs).guard Q) rfl
  exact (h0.next ⟨h1, .greeted rfl⟩).next ⟨h2, .polled rfl⟩

theorem sampleServed_run {Q : AssetService → AssetEvent → Prop} {urls : List Str}
    {os : Nat → Outcomes}
    (h1 : Q sampleService (.pushed 0 (sampleFrames.stateChange Amgr.stateId)))
    (h2 : Q (sampleService.put 0 .polling) (.polled 0 (urlsRequest urls) os)) :
    ((assetService sampleFrames sampleMgr.mainAssetDir sampleMgr.fs).guard Q).Run
      [.pushed 0 (sampleFrames.stateChange Amgr.stateId), .polled 0 (urlsRequest urls) os]
      (sampleServed urls os) := servedFirst_run rfl h1 h2

end Acord
