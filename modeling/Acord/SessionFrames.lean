import Acord.Conversation

/-! What a session has done, whatever it is doing now: the requests it answered, and as much of a
handler as has run. -/

namespace Acord
open Ac RequestLoop Transition

variable {sch : SchemaLib} {w w' : LocalEnv} {mid : List (LocalEvent sch)}
  {q : LocalProg Bool} {f : Ac.Frame} {s : Server localEffects Exn LocalEnv}

def Unanswered (p : Polled) (mid : List (LocalEvent sch)) : Prop :=
  accepted mid = [] ∨
    accepted mid = [loadedFrame] ∧ ∃ f, p = .frame f ∧ f.op = Schema.opLoadProvider

theorem catchClosed_throw_ended (e : Exn) : (catchClosed (.throw e)).Ended := by
  cases e <;> trivial

/-! What each operation comes to when what follows it need not run to its end: nothing was told
to the client, or the operation went well and the rest goes on. -/

section
variable {K : LocalProg Bool} {F : Ac.Frame → LocalProg Bool}

theorem part_push (h : Exec (acordRun sch) localEnv (catchClosed (Io.push f >>= fun _ => K))
    w mid q w') : accepted mid = [] ∨ ∃ rest, mid = .call (.push f) Pushed.ok :: rest ∧
      w.detached = false ∧ Exec (acordRun sch) localEnv (catchClosed K) w rest q w' := by
  rcases h.of_call_or with ⟨rfl, _, _⟩ | ⟨r, rest, rfl, hr, hk⟩
  · exact .inl rfl
  cases r with
  | ok => exact .inr ⟨rest, rfl, hr.1, hk⟩
  | closed =>
    obtain ⟨rfl, _, _⟩ := Exec.of_ret.mp hk
    exact .inl rfl
  | detached =>
    obtain ⟨rfl, _, _⟩ := Exec.of_crash.mp hk
    exact .inl rfl

theorem part_aioPush (h : Exec (acordRun sch) localEnv (catchClosed (Io.aioPush f >>= fun _ => K))
    w mid q w') : accepted mid = [] ∨ ∃ rest, mid = .call (.aioPush f) Pushed.ok :: rest ∧
      Exec (acordRun sch) localEnv (catchClosed K) w rest q w' := by
  rcases h.of_call_or with ⟨rfl, _, _⟩ | ⟨r, rest, rfl, _, hk⟩
  · exact .inl rfl
  cases r with
  | ok => exact .inr ⟨rest, rfl, hk⟩
  | closed =>
    obtain ⟨rfl, _, _⟩ := Exec.of_ret.mp hk
    exact .inl rfl
  | detached =>
    obtain ⟨rfl, _, _⟩ := Exec.of_crash.mp hk
    exact .inl rfl

theorem part_aioPoll (h : Exec (acordRun sch) localEnv (catchClosed (Io.aioPoll >>= F))
    w mid q w') : accepted mid = [] ∨ ∃ g rest, mid = .call .aioPoll (Polled.frame g) :: rest ∧
      Exec (acordRun sch) localEnv (catchClosed (F g)) w rest q w' := by
  rcases h.of_call_or with ⟨rfl, _, _⟩ | ⟨r, rest, rfl, _, hk⟩
  · exact .inl rfl
  cases r with
  | frame g => exact .inr ⟨g, rest, rfl, hk⟩
  | closed =>
    obtain ⟨rfl, _, _⟩ := Exec.of_ret.mp hk
    exact .inl rfl
  | detached =>
    obtain ⟨rfl, _, _⟩ := Exec.of_crash.mp hk
    exact .inl rfl

end

theorem part_last_push (h : Exec (acordRun sch) localEnv
    (catchClosed (Io.push f >>= fun _ => .ret true)) w mid q w') :
    q = .ret true ∨ accepted mid = [] := by
  rcases part_push h with hn | ⟨_, rfl, _, hk⟩
  · exact .inr hn
  · exact .inl (Exec.of_ret.mp hk).2.1

theorem part_assets {us : List Str} (h : Exec (acordRun sch) localEnv
    (catchClosed (acordMakeAssetsAvailable us >>= fun _ => .ret true)) w mid q w') :
    q = .ret true ∨ accepted mid = [] := by
  simp only [acordMakeAssetsAvailable, Prog.bind_assoc] at h
  rcases h.of_call_or with ⟨rfl, _, _⟩ | ⟨r, rest, rfl, _, hc⟩
  · exact .inr rfl
  cases r with
  | error e =>
    obtain ⟨rfl, _, _⟩ := (Exec.of_ended (catchClosed_throw_ended e)).mp hc
    exact .inr rfl
  | ok u =>
    rcases part_aioPoll hc with hn | ⟨state, _, rfl, hs⟩
    · exact .inr hn
    rcases part_aioPush hs with hn | ⟨_, rfl, ha⟩
    · exact .inr hn
    rcases part_aioPoll ha with hn | ⟨g, _, rfl, hg⟩
    · exact .inr hn
    have hl := part_last_push hg
    exact hl

theorem part_load (h2 : f.op = Schema.opLoadProvider) (hw : w.detached = false)
    (h : Exec (acordRun sch) localEnv (catchClosed (serve sch (.frame f))) w mid q w') :
    q = .ret true ∨ accepted mid = [] ∨ accepted mid = [loadedFrame] := by
  have h1 : f.op ≠ Schema.opMakeAssetsAvailable := h2 ▸ by decide
  simp only [serve, Polled.result, Prog.pure_eq, Prog.ret_bind, if_neg h1, if_pos h2] at h
  cases hp : sch.provider f.data with
  | error e =>
    rw [hp] at h
    exact (part_last_push h).imp_right .inl
  | ok name =>
    rw [hp] at h
    rcases h.of_call_or with ⟨rfl, _, _⟩ | ⟨r, rest, rfl, hr, hk⟩
    · exact .inr (.inl rfl)
    cases r with
    | ok =>
      rcases hk.of_call_or with ⟨rfl, _, _⟩ | ⟨_, rest, rfl, _, hd⟩
      · exact .inr (.inr rfl)
      rcases hd.of_call_or with ⟨rfl, _, _⟩ | ⟨r, rest, rfl, _, ha⟩
      · exact .inr (.inr rfl)
      cases r with
      | ok u =>
        obtain ⟨rfl, _, _⟩ := Exec.of_ret.mp ha
        exact .inr (.inr rfl)
      | error e =>
        -- the streams are gone, and the client is not told of the error
        rcases part_push ha with hn | ⟨_, _, hf, _⟩
        · have hl := congrArg (loadedFrame :: ·) hn
          exact .inr (.inr hl)
        · exact absurd hf (by simp [localEnv, LocalEnv.next])
    | closed =>
      rcases part_last_push hk with hq | hn
      · exact .inl hq
      · exact .inr (.inl hn)
    | detached => exact absurd (hw.symm.trans hr) (by decide)

theorem part_serve {p : Polled} (hw : w.detached = false)
    (h : Exec (acordRun sch) localEnv (catchClosed (serve sch p)) w mid q w') :
    q = .ret true ∨ Unanswered p mid := by
  cases p with
  | closed =>
    obtain ⟨rfl, _, _⟩ := Exec.of_ret.mp h
    exact .inr (.inl rfl)
  | detached =>
    obtain ⟨rfl, _, _⟩ := Exec.of_crash.mp h
    exact .inr (.inl rfl)
  | frame f =>
    by_cases h2 : f.op = Schema.opLoadProvider
    · rcases part_load h2 hw h with hq | hn | hl
      · exact .inl hq
      · exact .inr (.inl hn)
      · exact .inr (.inr ⟨hl, f, rfl, h2⟩)
    · refine Or.imp_right .inl (b := accepted mid = []) ?_
      by_cases h1 : f.op = Schema.opMakeAssetsAvailable
      · simp only [serve, Polled.result, Prog.pure_eq, Prog.ret_bind, if_pos h1] at h
        cases hu : sch.urls f.data with
        | error e =>
          rw [hu] at h
          obtain ⟨rfl, _, _⟩ := (Exec.of_ended (catchClosed_throw_ended e)).mp h
          exact .inr rfl
        | ok us =>
          rw [hu] at h
          exact part_assets h
      · simp only [serve, Polled.result, Prog.pure_eq, Prog.ret_bind, if_neg h1, if_neg h2] at h
        exact part_last_push h

/-! What a session has done, whatever it is doing now. -/

structure Conversed (sch : SchemaLib) (log : List (LocalEvent sch)) (q : LocalProg Bool)
    (xs : List (Exchange sch)) (rest : List (LocalEvent sch)) : Prop where
  log : log = startEvents sch ++ xs.flatMap Exchange.events ++ rest
  now : (rest = [] ∧ q = .ret true) ∨
    q ≠ .ret true ∧ ∃ p mid, rest = .request p :: mid ∧ polledFrames mid = [] ∧ Unanswered p mid

theorem part_start {log : List (LocalEvent sch)}
    (h : Exec (acordRun sch) localEnv (acordRun sch).start ⟨false, false⟩ log q w) :
    (q ≠ .ret true ∧ accepted log = [] ∧ polledFrames log = []) ∨
      log = startEvents sch ∧ q = .ret true := by
  by_cases hq : q = .ret true
  · subst hq
    exact .inr ⟨(exec_start rfl h).1, rfl⟩
  · have hp : polledFrames log = [] := exec_polled h
    rcases part_push h with hn | ⟨rest, rfl, _, hk⟩
    · exact .inl ⟨hq, hn, hp⟩
    · exact absurd (Exec.of_ret.mp hk).2.1 hq

theorem session_conversed {log : List (LocalEvent sch)} (h : (localSession sch).Run log s) :
    (s.prog ≠ .ret true ∧ accepted log = [] ∧ polledFrames log = []) ∨
    ∃ xs rest, Conversed sch log s.prog xs rest := by
  rcases Loop.run_served h with hstart | ⟨tr', ps, w, r, mid, rfl, hs, hr, he⟩
  · rcases part_start hstart with hn | ⟨rfl, hq⟩
    · exact .inl hn
    · exact .inr ⟨[], [], (List.append_nil _).symm, .inl ⟨rfl, hq⟩⟩
  · obtain ⟨xs, rfl, hno, hw⟩ := served_exchanges hs
    have hw' : (localEnv.next w LocalOp.poll r).detached = false := by
      cases r <;> exact hw
    right
    by_cases hq : s.prog = .ret true
    · -- the handler is through, and its request is one more exchange
      rw [hq] at he
      obtain ⟨f, reply, rfl, hreply, _, _⟩ := serve_goes_on hw' he
      refine ⟨xs ++ [⟨f, mid, reply, exec_polled he, hreply⟩], [], ?_, .inl ⟨rfl, hq⟩⟩
      rw [List.flatMap_append, List.append_nil, List.append_assoc]
      simp [Exchange.events]
    · have hu := (part_serve hw' he).resolve_left hq
      exact ⟨xs, _, rfl, .inr ⟨hq, r, mid, rfl, exec_polled he, hu⟩⟩

theorem Conversed.polled {log rest : List (LocalEvent sch)} {xs : List (Exchange sch)}
    (h : Conversed sch log q xs rest) :
    polledFrames log = xs.map Exchange.request ++ polledFrames rest := by
  rw [h.log, polledFrames_append, polledFrames_append, polledFrames_exchanges]
  rfl

theorem Conversed.accepted {log rest : List (LocalEvent sch)} {xs : List (Exchange sch)}
    (h : Conversed sch log q xs rest) :
    accepted log = sch.stateChange Schema.id :: xs.map Exchange.reply ++ accepted rest := by
  rw [h.log, accepted_append, accepted_append, accepted_exchanges]
  rfl

theorem one_exchange {xs : List (Exchange sch)} {pending : Option Ac.Frame} (hne : xs ≠ [])
    (hpolled : [f] = xs.map Exchange.request ++ pending.toList) :
    ∃ x, xs = [x] ∧ pending = none ∧ x.request = f := by
  cases xs with
  | nil => exact absurd rfl hne
  | cons x xs =>
    obtain ⟨hf, hrest⟩ := List.cons.inj hpolled
    obtain ⟨hxs, hpending⟩ := List.append_eq_nil_iff.mp hrest.symm
    obtain rfl := List.map_eq_nil_iff.mp hxs
    refine ⟨x, rfl, ?_, hf.symm⟩
    cases pending with
    | none => rfl
    | some g => cases hpending

theorem session_frames {log : List (LocalEvent sch)} (h : (localSession sch).Run log s) :
    ∃ (xs : List (Exchange sch)) (pending : Option Ac.Frame),
      (xs = [] ∨ ∃ rest, log = startEvents sch ++ xs.flatMap Exchange.events ++ rest) ∧
      polledFrames log = xs.map Exchange.request ++ pending.toList ∧
      ((¬ Attached log ∧ accepted log <+: sch.stateChange Schema.id :: xs.map Exchange.reply) ∨
        ∃ f, pending = some f ∧ f.op = Schema.opLoadProvider ∧
          accepted log = sch.stateChange Schema.id :: xs.map Exchange.reply ++ [loadedFrame]) := by
  -- the frames a session polled, but for the one it may be working on, are those it answered; and
  -- if it has handed its client over, that one asked for it
  by_cases ha : Attached log
  · obtain ⟨xs, f, name, hop, rfl, _⟩ := attached_conversation h ha
    refine ⟨xs, some f, ?_, ?_, .inr ⟨f, rfl, hop, ?_⟩⟩
    · exact .inr ⟨loadEvents f name, rfl⟩
    · rw [polledFrames_append, polledFrames_append, polledFrames_exchanges]
      rfl
    · rw [accepted_append, accepted_append, accepted_exchanges]
      rfl
  · rcases session_conversed h with ⟨_, hacc, hpol⟩ | ⟨xs, rest, hc⟩
    · exact ⟨[], none, .inl rfl, hpol, .inl ⟨ha, hacc ▸ List.nil_prefix⟩⟩
    · have hin : xs = [] ∨ ∃ rest, log = startEvents sch ++ xs.flatMap Exchange.events ++ rest :=
        .inr ⟨rest, hc.log⟩
      have hpolled := hc.polled
      have hacc := hc.accepted
      rcases hc.now with ⟨rfl, _⟩ | ⟨_, p, mid, rfl, hp, hu⟩
      · exact ⟨xs, none, hin, hpolled, .inl ⟨ha, (hacc.trans (List.append_nil _)) ▸ List.prefix_rfl⟩⟩
      · have hone : polledFrames (Event.request p :: mid) =
            (polledFrame (Event.request p : LocalEvent sch)).toList := by
          cases p with
          | frame f => exact congrArg (f :: ·) hp
          | closed | detached => exact hp
        refine ⟨xs, _, hin, hone ▸ hpolled, ?_⟩
        rcases hu with hn | ⟨hl, f, rfl, hop⟩
        · have hnone : Acord.accepted (Event.request p :: mid) = [] := hn
          rw [hnone, List.append_nil] at hacc
          exact .inl ⟨ha, hacc ▸ List.prefix_rfl⟩
        · have hloaded : Acord.accepted (Event.request (Polled.frame f) :: mid) = [loadedFrame] := hl
          rw [hloaded] at hacc
          exact .inr ⟨f, rfl, hop, hacc⟩

end Acord
