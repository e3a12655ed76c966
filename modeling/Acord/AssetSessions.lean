import Acord.AssetReplies

/-! Sessions of the asset manager: each answers every frame once before it polls the next, as long
as no frame makes it touch what cannot be touched. -/

namespace Acord
open Ac Transition

variable {lib : FrameLib} {dir : AssetDir} {fs : Fs} {s t : AssetService} {e : AssetEvent}
  {i j : Nat} {mid tr : List AssetEvent} {reply : Ac.Frame}

def answers (i : Nat) (mid : List AssetEvent) : List Ac.Frame :=
  mid.filterMap fun
    | .pushed j f => if j = i then some f else none
    | _ => none

def PolledBy (i : Nat) (e : AssetEvent) : Prop := ∃ cmd os, e = .polled i cmd os

def SoundPolls (s : AssetService) : AssetEvent → Prop
  | .polled _ cmd os => SoundFrame s.mgr cmd os
  | _ => True

def AnsweredOnce (reply : Ac.Frame) (pushed : List Ac.Frame) (c : AssetSession) : Prop :=
  (pushed = [] ∧ ∃ cmd, c = .replying cmd reply) ∨ (pushed = [reply] ∧ c = .polling) ∨
    ((pushed = [] ∨ pushed = [reply]) ∧ c = .closed)

theorem answers_append (h : ∀ f, e ≠ .pushed i f) : answers i (mid ++ [e]) = answers i mid := by
  unfold answers
  rw [List.filterMap_append]
  cases e with
  | pushed j f =>
    have hj : j ≠ i := fun hj => h f (hj ▸ rfl)
    simp [hj]
  | _ => simp

theorem answers_pushed (i : Nat) (mid : List AssetEvent) (f : Ac.Frame) :
    answers i (mid ++ [.pushed i f]) = answers i mid ++ [f] := by
  unfold answers
  rw [List.filterMap_append]
  simp

theorem AnsweredOnce.close {pushed : List Ac.Frame} {c : AssetSession}
    (h : AnsweredOnce reply pushed c) :
    AnsweredOnce reply pushed .closed := by
  rcases h with ⟨h, _⟩ | ⟨h, _⟩ | ⟨h, _⟩
  · exact .inr (.inr ⟨.inl h, rfl⟩)
  · exact .inr (.inr ⟨.inr h, rfl⟩)
  · exact .inr (.inr ⟨h, rfl⟩)

theorem AnsweredOnce.step (h : AnsweredOnce reply (answers i mid) (s.sessions i))
    (hs : AssetStep lib s e t) (he : ¬ PolledBy i e) :
    AnsweredOnce reply (answers i (mid ++ [e])) (t.sessions i) := by
  cases hs with
  | @greeted j due =>
    -- a session that polled a frame has pushed its state frame before
    have hj : i ≠ j := by
      rintro rfl
      rw [due] at h
      rcases h with ⟨_, _, h⟩ | ⟨_, h⟩ | ⟨_, h⟩ <;> exact nomatch h
    rw [AssetService.put_other hj, answers_append fun _ h => hj (AssetEvent.pushed.inj h).1.symm]
    exact h
  | @replied j cmd reply' due =>
    by_cases hj : i = j
    · subst hj
      rw [due] at h
      rcases h with ⟨h, cmd', hc⟩ | ⟨_, hc⟩ | ⟨_, hc⟩
      · obtain ⟨rfl, rfl⟩ := AssetSession.replying.inj hc
        rw [AssetService.put_same, answers_pushed, h]
        exact .inr (.inl ⟨rfl, rfl⟩)
      · exact nomatch hc
      · exact nomatch hc
    · rw [AssetService.put_other hj, answers_append fun _ h => hj (AssetEvent.pushed.inj h).1.symm]
      exact h
  | @polled j cmd os due =>
    have hj : i ≠ j := by
      rintro rfl
      exact he ⟨cmd, os, rfl⟩
    have hquiet : ∀ f, AssetEvent.polled j cmd os ≠ .pushed i f := fun _ => nofun
    rw [AssetService.put_other hj, answers_append hquiet]
    exact h
  | @closed j due =>
    have hquiet : ∀ f, AssetEvent.closed j ≠ .pushed i f := fun _ => nofun
    rw [answers_append hquiet]
    by_cases hj : i = j
    · subst hj
      rw [AssetService.put_same]
      exact h.close
    · rw [AssetService.put_other hj]
      exact h

theorem SoundFrame.replying (lib : FrameLib) {cmd : Ac.Frame} {os : Nat → Outcomes}
    (h : SoundFrame s.mgr cmd os) :
    ∃ reply, AnsweredBy lib s.mgr cmd os reply ∧
      AssetSession.after cmd (runCommand lib s.mgr cmd os).1 = .replying cmd reply := by
  obtain ⟨reply, hr⟩ := (frame_answered_iff lib s.mgr cmd os).mpr h
  refine ⟨reply, hr, ?_⟩
  rw [hr.1]
  rfl

theorem no_escape_step (h : ∀ i e, s.sessions i ≠ .escaped e) (hp : SoundPolls s e)
    (hs : AssetStep lib s e t) : ∀ i e, t.sessions i ≠ .escaped e := by
  intro i x
  have hput : ∀ (u : AssetService) (j : Nat) (c : AssetSession), u.sessions = s.sessions →
      (∀ x, c ≠ .escaped x) → (u.put j c).sessions i ≠ .escaped x := by
    intro u j c hu hc
    by_cases hj : i = j
    · rw [hj, AssetService.put_same]
      exact hc x
    · rw [AssetService.put_other hj, hu]
      exact h i x
  cases hs with
  | greeted => exact hput _ _ _ rfl fun _ => nofun
  | replied => exact hput _ _ _ rfl fun _ => nofun
  | closed => exact hput _ _ _ rfl fun _ => nofun
  | polled =>
    obtain ⟨reply, _, hafter⟩ := SoundFrame.replying lib hp
    rw [hafter]
    exact hput _ _ _ rfl fun _ => nofun

/-- In every run whose frames are sound no exception leaves a session, and each session answers a
frame once, with one path for each URL, before it polls the next. In every state, the frames
answered so are the sound ones. -/
theorem bad_asset_isolated (h : ((assetService lib dir fs).guard SoundPolls).Run tr s) :
    (∀ i e, s.sessions i ≠ .escaped e) ∧
    (∀ i cmd os pre mid, LastAt (PolledBy i) tr pre (.polled i cmd os) mid →
      ∃ sp reply, ((assetService lib dir fs).guard SoundPolls).Run pre sp ∧
        sp.sessions i = .polling ∧
        AnsweredBy lib sp.mgr cmd os reply ∧ AnsweredOnce reply (answers i mid) (s.sessions i)) ∧
    ∀ cmd os, (∃ reply, AnsweredBy lib s.mgr cmd os reply) ↔ SoundFrame s.mgr cmd os := by
  refine ⟨?_, ?_, frame_answered_iff lib s.mgr⟩
  · apply h.invariant (I := fun s => ∀ i e, s.sessions i ≠ .escaped e)
    · rintro s rfl
      exact fun _ _ => nofun
    · intro s e t hi hs
      exact no_escape_step hi hs.1 hs.2
  · intro i cmd os pre mid hl
    refine h.episode_from (J := fun pre e mid s => ∀ cmd os, e = .polled i cmd os →
      ∃ sp reply, ((assetService lib dir fs).guard SoundPolls).Run pre sp ∧
        sp.sessions i = .polling ∧
        AnsweredBy lib sp.mgr cmd os reply ∧ AnsweredOnce reply (answers i mid) (s.sessions i))
      ?_ ?_ hl cmd os rfl
    · rintro pre s e t hpre ⟨hp, hs⟩ _ cmd os rfl
      cases hs with
      | polled due =>
        obtain ⟨reply, hr, hafter⟩ := SoundFrame.replying lib hp
        refine ⟨s, reply, hpre, due, hr, .inl ⟨rfl, cmd, ?_⟩⟩
        rw [AssetService.put_same, hafter]
    · intro pre s e mid b t hj hs hb cmd os he
      obtain ⟨sp, reply, hpre, due, hr, hanswered⟩ := hj cmd os he
      exact ⟨sp, reply, hpre, due, hr, hanswered.step hs.2 hb⟩

def refusedOutcomes (i : Nat) : Outcomes :=
  if i = 0 then { sampleOutcomes 2 with getSync := .error (.error (lit "404")) }
  else sampleOutcomes 2

theorem refused_sound :
    SoundFrame sampleMgr (urlsRequest [lit "h/m", lit "h/n"]) refusedOutcomes := by
  refine fun _ => .inr ⟨_, rfl, fun i url hi _ _ => ?_⟩
  match i with
  | 0 =>
    obtain rfl := Option.some.inj hi
    exact ⟨touched_iff.mp rfl, fun _ _ chunks hc => nomatch hc⟩
  | 1 =>
    obtain rfl := Option.some.inj hi
    refine ⟨touched_iff.mp rfl, fun _ _ chunks hc => ?_⟩
    obtain rfl : [[1, 2]] = chunks := Completes.unique (o := refusedOutcomes 1) rfl hc
    exact ⟨⟨Nat.le_refl _, trivial⟩, .inl rfl⟩
  | i + 2 => exact nomatch hi

theorem bad_asset_isolated_refused :
    (sampleServed [lit "h/m", lit "h/n"] refusedOutcomes).sessions 0 =
      .replying (urlsRequest [lit "h/m", lit "h/n"]) (assetsFrame [[], lit "/a/n"]) ∧
    ∀ e, (sampleServed [lit "h/m", lit "h/n"] refusedOutcomes).sessions 0 ≠ .escaped e :=
  ⟨rfl, (bad_asset_isolated (sampleServed_run trivial refused_sound)).1 0⟩

/-- A URL that ends in a slash has no file name: touching its temporary file throws, which leaves
the session with nothing pushed, the second URL of the request not even looked for. -/
theorem nameless_escapes : ∃ tr s pre os e,
    (assetService sampleFrames sampleMgr.mainAssetDir sampleMgr.fs).Run tr s ∧
    LastAt (PolledBy 0) tr pre (.polled 0 (urlsRequest [lit "h/", lit "h/m"]) os) [] ∧
    (∀ i, os i = sampleOutcomes 2) ∧ e ≠ .streamClosed ∧ s.sessions 0 = .escaped e := by
  have hrun : (assetService sampleFrames sampleMgr.mainAssetDir sampleMgr.fs).Run _
      (sampleServed [lit "h/", lit "h/m"] fun _ => sampleOutcomes 2) :=
    (sampleServed_run (Q := fun _ _ => True) trivial trivial).of_guard
  exact ⟨_, _, [_], _, Fs.touchError (lit "/a/.acord-dl/"), hrun, ⟨rfl, ⟨_, _, rfl⟩, nofun⟩,
    fun _ => rfl, nofun, rfl⟩

end Acord
