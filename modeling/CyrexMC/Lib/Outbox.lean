import Mathlib.Data.List.Perm.Basic
set_option autoImplicit false

/-!
A queue in front of a wire. Items are posted to the queue, which a flush sends as one parcel, or
they are passed by it in a parcel of their own.
-/

namespace Outbox

variable {α : Type}

inductive Op (α : Type) where
  | post : List α → Op α
  | pass : List α → Op α
  | flush

structure Parcel (α : Type) where
  items : List α
  queued : Bool

structure State (α : Type) where
  queue : List α := []
  sent : List (Parcel α) := []

def step (s : State α) : Op α → State α
  | .post items => { s with queue := s.queue ++ items }
  | .pass items => { s with sent := s.sent ++ [⟨items,false⟩] }
  | .flush => if s.queue.isEmpty then s else { queue := [], sent := s.sent ++ [⟨s.queue,true⟩] }

def run (s : State α) (ops : List (Op α)) : State α := ops.foldl step s

def Op.posted : Op α → List α
  | .post items => items
  | .pass _ | .flush => []

def Op.passed : Op α → Option (List α)
  | .pass items => some items
  | .post _ | .flush => none

def State.flushed (s : State α) : List α := (s.sent.filter fun p => p.queued).flatMap Parcel.items

def State.passed (s : State α) : List (List α) := (s.sent.filter fun p => !p.queued).map Parcel.items

theorem flushed_step (s : State α) (op : Op α) :
    (step s op).flushed ++ (step s op).queue = s.flushed ++ s.queue ++ op.posted := by
  cases op with
  | post items => simp [step,State.flushed,Op.posted]
  | pass items => simp [step,State.flushed,Op.posted]
  | flush =>
    by_cases hempty : s.queue = []
    · simp [step,State.flushed,Op.posted,hempty]
    · simp [step,State.flushed,Op.posted,hempty]

theorem passed_step (s : State α) (op : Op α) : (step s op).passed = s.passed ++ op.passed.toList := by
  cases op with
  | post items => simp [step,State.passed,Op.passed]
  | pass items => simp [step,State.passed,Op.passed]
  | flush =>
    by_cases hempty : s.queue = []
    · simp [step,State.passed,Op.passed,hempty]
    · simp [step,State.passed,Op.passed,hempty]

theorem flushed_run (s : State α) (ops : List (Op α)) :
    (run s ops).flushed ++ (run s ops).queue = s.flushed ++ s.queue ++ ops.flatMap Op.posted := by
  induction ops generalizing s with
  | nil => simp [run]
  | cons op ops ih =>
    have hstep := flushed_step s op
    have hrest := ih (step s op)
    rw [hstep] at hrest
    simpa [run] using hrest

theorem passed_run (s : State α) (ops : List (Op α)) :
    (run s ops).passed = s.passed ++ ops.filterMap Op.passed := by
  induction ops generalizing s with
  | nil => simp [run]
  | cons op ops ih =>
    have hrest := ih (step s op)
    rw [passed_step] at hrest
    cases hop : op.passed with
    | none => simpa [run,hop] using hrest
    | some items => simpa [run,hop] using hrest

theorem queue_flush (s : State α) : (step s .flush).queue = [] := by
  by_cases hempty : s.queue = []
  · simp [step,hempty]
  · simp [step,hempty]

theorem run_flush (s : State α) (ops : List (Op α)) :
    (run s (ops ++ [.flush])).queue = [] ∧
    (run s (ops ++ [.flush])).flushed = s.flushed ++ s.queue ++ ops.flatMap Op.posted ∧
    (run s (ops ++ [.flush])).passed = s.passed ++ ops.filterMap Op.passed := by
  have hlast : run s (ops ++ [.flush]) = step (run s ops) .flush := by simp [run]
  have hqueue : (run s (ops ++ [.flush])).queue = [] := by
    rw [hlast]
    exact queue_flush _
  have hflushed := flushed_run s (ops ++ [.flush])
  have hpassed := passed_run s (ops ++ [.flush])
  rw [hqueue] at hflushed
  refine ⟨hqueue,?_,?_⟩
  · simpa [Op.posted] using hflushed
  · simpa [List.filterMap_cons,Op.passed] using hpassed

theorem sent_perm (s : State α) : (s.sent.flatMap Parcel.items).Perm (s.flushed ++ s.passed.flatten) := by
  have hsplit := List.filter_append_perm (fun p : Parcel α => p.queued) s.sent
  have hitems := hsplit.flatMap_right Parcel.items
  rw [List.flatMap_append] at hitems
  exact hitems.symm

end Outbox
