import Mathlib.Data.List.Perm.Basic
import Acord.Lib.Transition

/-! `WsSessionHandlerWobj`: one waits on the executor of a session to be notified from any thread. -/

namespace Acord
open Transition

inductive WobjTask
  | notify
  | cancel (old : Nat)

def WobjTask.old : WobjTask → Option Nat
  | notify => none
  | cancel old => some old

/-- The callbacks are numbered as they are passed to `wait`, `waited` in all; the executor runs
`tasks` in order. -/
structure WsSessionHandlerWobj where
  cb : Option Nat
  tasks : List WobjTask
  waited : Nat
  invoked : List Nat

namespace WsSessionHandlerWobj
variable (s : WsSessionHandlerWobj)

def post (task : WobjTask) : WsSessionHandlerWobj := { s with tasks := s.tasks ++ [task] }

def notifyOne : WsSessionHandlerWobj := s.post .notify

def wait : WsSessionHandlerWobj :=
  let s' :=
    match s.cb with
    | some old => s.post (.cancel old)
    | none => s
  { s' with cb := some s.waited, waited := s.waited + 1 }

def invoke (cb : Nat) : WsSessionHandlerWobj := { s with invoked := s.invoked ++ [cb] }

def runTask : WobjTask → WsSessionHandlerWobj
  | .cancel old => s.invoke old
  | .notify =>
    match s.cb with
    | some cb => { s with cb := none }.invoke cb
    | none => s

end WsSessionHandlerWobj

inductive WobjEvent
  | wait
  | notify
  | run

inductive WobjStep : WsSessionHandlerWobj → WobjEvent → WsSessionHandlerWobj → Prop
  | wait (s : WsSessionHandlerWobj) : WobjStep s .wait s.wait
  | notify (s : WsSessionHandlerWobj) : WobjStep s .notify s.notifyOne
  | run {s : WsSessionHandlerWobj} {task : WobjTask} {rest : List WobjTask}
      (h : s.tasks = task :: rest) : WobjStep s .run ({ s with tasks := rest }.runTask task)

def wobj : System WsSessionHandlerWobj WobjEvent where
  init s := s = ⟨none, [], 0, []⟩
  step := WobjStep

section
variable {s t : WsSessionHandlerWobj} {e : WobjEvent} {tr : List WobjEvent}

def Accounted (s : WsSessionHandlerWobj) : Prop :=
  (s.invoked ++ (s.cb.toList ++ s.tasks.filterMap WobjTask.old)).Perm (List.range s.waited)

@[simp] theorem WsSessionHandlerWobj.runTask_waited (s : WsSessionHandlerWobj) (task : WobjTask) :
    (s.runTask task).waited = s.waited := by
  cases task with
  | cancel old => rfl
  | notify =>
    unfold runTask
    cases s.cb <;> rfl

@[simp] theorem WsSessionHandlerWobj.runTask_tasks (s : WsSessionHandlerWobj) (task : WobjTask) :
    (s.runTask task).tasks = s.tasks := by
  cases task with
  | cancel old => rfl
  | notify =>
    unfold runTask
    cases s.cb <;> rfl

theorem WsSessionHandlerWobj.runTask_cb {s : WsSessionHandlerWobj} {task : WobjTask}
    (h : s.cb = none ∨ task = .notify) : (s.runTask task).cb = none := by
  cases task with
  | cancel old => exact h.resolve_right (by simp)
  | notify =>
    unfold runTask
    cases hcb : s.cb with
    | none => exact hcb
    | some cb => rfl

theorem accounted_step (hi : Accounted s) (h : WobjStep s e t) : Accounted t := by
  unfold Accounted at hi ⊢
  cases h with
  | notify =>
    show (s.invoked ++ (s.cb.toList ++ (s.tasks ++ [WobjTask.notify]).filterMap WobjTask.old)).Perm _
    have hnone : [WobjTask.notify].filterMap WobjTask.old = [] := rfl
    rw [List.filterMap_append, hnone, List.append_nil]
    exact hi
  | wait =>
    have hnew := hi.append_right [s.waited]
    rw [← List.range_succ] at hnew
    refine List.Perm.trans ?_ hnew
    unfold WsSessionHandlerWobj.wait
    cases hcb : s.cb with
    | none =>
      simp only [Option.toList_some, Option.toList_none, List.perm_iff_count, List.count_append,
        List.count_nil]
      intro a
      omega
    | some old =>
      -- the one that gives way is the only callback posted
      have hold : [WobjTask.cancel old].filterMap WobjTask.old = [old] := rfl
      simp only [WsSessionHandlerWobj.post, Option.toList_some, List.filterMap_append, hold,
        List.perm_iff_count, List.count_append]
      intro a
      omega
  | @run task rest htasks =>
    rw [WsSessionHandlerWobj.runTask_waited]
    refine List.Perm.trans ?_ hi
    rw [htasks]
    cases task with
    | cancel old =>
      have hold : (WobjTask.cancel old :: rest).filterMap WobjTask.old =
        [old] ++ rest.filterMap WobjTask.old := rfl
      simp only [WsSessionHandlerWobj.runTask, WsSessionHandlerWobj.invoke, hold,
        List.perm_iff_count, List.count_append]
      intro a
      omega
    | notify =>
      have hold : (WobjTask.notify :: rest).filterMap WobjTask.old =
        rest.filterMap WobjTask.old := rfl
      unfold WsSessionHandlerWobj.runTask
      cases hcb : s.cb with
      | none => simp only [hold, List.Perm.refl]
      | some cb =>
        simp only [hold, WsSessionHandlerWobj.invoke, Option.toList_some, Option.toList_none,
          List.perm_iff_count, List.count_append, List.count_nil]
        intro a
        omega

theorem wobj_notified {pre mid : List WobjEvent} (h : wobj.Run tr s)
    (hl : LastAt (· = .wait) tr pre .wait mid) (hn : .notify ∈ mid) :
    s.cb = none ∨ .notify ∈ s.tasks := by
  -- a callback that is waiting when it is notified waits no longer than the notification does
  refine h.episode (J := fun _ mid s => .notify ∈ mid → s.cb = none ∨ .notify ∈ s.tasks)
    (fun _ _ _ _ _ hnil => by cases hnil) ?_ hl hn
  intro s a mid b t hi hstep hb hmem
  cases hstep with
  | wait => exact absurd rfl hb
  | notify => exact .inr (List.mem_append_right _ (List.mem_singleton_self _))
  | @run task rest htasks =>
    have hmid : .notify ∈ mid := by simpa using hmem
    rcases hi hmid with hnone | hin
    · exact .inl (WsSessionHandlerWobj.runTask_cb (.inl hnone))
    · rw [htasks] at hin
      rcases List.mem_cons.mp hin with htask | hrest
      · exact .inl (WsSessionHandlerWobj.runTask_cb (.inr htask.symm))
      · rw [WsSessionHandlerWobj.runTask_tasks]
        exact .inr hrest

/-- In every run each callback is invoked at most once; and no notification is lost: when the
executor has nothing left to do, all that waited have been invoked if one was notified after the
last of them began to wait. -/
theorem wobj_wakes (h : wobj.Run tr s) :
    (s.invoked ++ (s.cb.toList ++ s.tasks.filterMap WobjTask.old)).Perm (List.range s.waited) ∧
    ∀ pre mid, LastAt (· = .wait) tr pre .wait mid → .notify ∈ mid → s.tasks = [] →
      s.invoked.Perm (List.range s.waited) := by
  have hall : Accounted s := by
    refine h.invariant (fun s hs => ?_) fun _ _ _ => accounted_step
    obtain rfl := hs
    exact List.Perm.refl []
  refine ⟨hall, fun pre mid hl hn htasks => ?_⟩
  have hcb := (wobj_notified h hl hn).resolve_right (by simp [htasks])
  unfold Accounted at hall
  simpa [hcb, htasks] using hall

theorem wobj_wakes_two : ∃ s, wobj.Run [.wait, .notify, .wait, .notify, .run, .run, .run] s ∧
    s.invoked = [1, 0] ∧ s.invoked.Perm (List.range 2) := by
  have hstart : wobj.Run [] ⟨none, [], 0, []⟩ := .start rfl
  have hwait := hstart.next (.wait _)
  have hnotify := hwait.next (.notify _)
  have hsecond := hnotify.next (.wait _)
  have hagain := hsecond.next (.notify _)
  have hrun := ((hagain.next (.run rfl)).next (.run rfl)).next (.run rfl)
  have hlast : LastAt (· = WobjEvent.wait) [.wait, .notify, .wait, .notify, .run, .run, .run]
      [.wait, .notify] .wait [.notify, .run, .run, .run] := ⟨rfl, rfl, by simp⟩
  exact ⟨_, hrun, rfl, (wobj_wakes hrun).2 _ _ hlast List.mem_cons_self rfl⟩

end
end Acord
