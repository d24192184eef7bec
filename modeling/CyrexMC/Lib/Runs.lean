import CyrexMC.Lib.Stateful
import Mathlib.Data.List.Basic
import Mathlib.Data.List.Forall2
import Mathlib.Tactic.ByContra
set_option autoImplicit false

/-!
Runs of a system with many parties, as one of them sees them, runs in rounds that use up a potential,
and the histories that runs leave.
-/

namespace Stateful

variable {ε σ τ ι : Type}

def runAll (step : ι → EStateM ε σ Unit) : List ι → EStateM ε σ Unit
  | [] => return ()
  | i :: is => do
    step i
    runAll step is

theorem runAll_append (step : ι → EStateM ε σ Unit) (is js : List ι) :
    runAll step (is ++ js) = (do runAll step is; runAll step js) := by
  induction is with
  | nil => rfl
  | cons i is ih =>
    funext s
    simp only [List.cons_append,runAll,bind_apply,ih]
    cases step i s with
    | ok a t => rfl
    | error e t => rfl

theorem Coupled.runAll {R : σ → σ → Prop} {step : ι → EStateM ε σ Unit} {is js : List ι}
    (h : List.Forall₂ (fun i j => Coupled R (fun _ _ => True) (step i) (step j)) is js) :
    Coupled R (fun _ _ => True) (Stateful.runAll step is) (Stateful.runAll step js) := by
  induction h with
  | nil => exact Coupled.returns trivial
  | cons hij _ ih => exact Coupled.bind hij fun _ _ _ => ih

/-- States that look the same stay so where a step that is not seen happens in one of them only,
and where a step that is seen happens in both. -/
structure Unwinding (R : σ → σ → Prop) (seen : ι → Bool) (step : ι → EStateM ε σ Unit) : Prop where
  symm : ∀ s t, R s t → R t s
  unseen : ∀ i, seen i = false → ∀ s t u, R s t → step i s = .ok () u → R u t
  seen : ∀ i, seen i = true → Coupled R (fun _ _ => True) (step i) (step i)

namespace Unwinding

variable {R : σ → σ → Prop} {seen : ι → Bool} {step : ι → EStateM ε σ Unit}

theorem runAll_unseen (h : Unwinding R seen step) {is : List ι} (his : is.filter seen = []) {s t u : σ}
    (hst : R s t) (hr : runAll step is s = .ok () u) : R u t := by
  induction is generalizing s with
  | nil =>
    cases hr
    exact hst
  | cons i is ih =>
    have hi : seen i = false := by
      by_contra hseen
      rw [List.filter_cons_of_pos (by simpa using hseen)] at his
      cases his
    rw [List.filter_cons_of_neg (by simp [hi])] at his
    obtain ⟨a,s',hstep,hrest⟩ := of_bind_ok hr
    exact ih his (h.unseen i hi s t s' hst hstep) hrest

/-- Runs with the same seen steps, whatever the others are and wherever they happen. -/
theorem runAll (h : Unwinding R seen step) {is js : List ι} (hij : is.filter seen = js.filter seen) :
    Coupled R (fun _ _ => True) (Stateful.runAll step is) (Stateful.runAll step js) := by
  induction is generalizing js with
  | nil =>
    intro s t hst a s' b t' hs ht
    cases hs
    exact ⟨trivial,h.symm t' s (h.runAll_unseen hij.symm (h.symm s t hst) ht)⟩
  | cons i is ih =>
    cases hi : seen i with
    | false =>
      rw [List.filter_cons_of_neg (by simp [hi])] at hij
      intro s t hst a s' b t' hs ht
      obtain ⟨c,u,hstep,hrest⟩ := of_bind_ok hs
      exact ih hij u t (h.unseen i hi s t u hst hstep) a s' b t' hrest ht
    | true =>
      rw [List.filter_cons_of_pos hi] at hij
      obtain ⟨front,rest,rfl,hfront,-,hrest⟩ := List.filter_eq_cons_iff.mp hij.symm
      have hunseen : front.filter seen = [] := List.filter_eq_nil_iff.mpr hfront
      intro s t hst a s' b t' hs ht
      rw [runAll_append] at ht
      obtain ⟨c,u,hbefore,hafter⟩ := of_bind_ok ht
      have hsu : R s u := h.symm u s (h.runAll_unseen hunseen (h.symm s t hst) hbefore)
      have hboth : Coupled R (fun _ _ => True) (Stateful.runAll step (i :: is))
          (Stateful.runAll step (i :: rest)) := Coupled.bind (h.seen i hi) fun _ _ _ => ih hrest.symm
      exact hboth s u hsu a s' b t' hs hafter

end Unwinding

end Stateful

namespace Stateful

variable {ε σ ι α : Type} {R : α → σ → Prop} {seen : ι → Bool} {next : α → ι → α} {step : ι → EStateM ε σ Unit}

/-- A step that is seen leads the abstract state along, and one that is not leaves it where it is. -/
structure Refines (R : α → σ → Prop) (seen : ι → Bool) (next : α → ι → α) (step : ι → EStateM ε σ Unit) : Prop where
  moves : ∀ i, seen i = true → ∀ a s s', R a s → step i s = .ok () s' → R (next a i) s'
  stays : ∀ i, seen i = false → ∀ a s s', R a s → step i s = .ok () s' → R a s'

/-- A run is the abstract run over the steps that are seen. -/
theorem Refines.runAll (h : Refines R seen next step) {is : List ι} {a : α} {s s' : σ} (ha : R a s)
    (hr : Stateful.runAll step is s = .ok () s') : R ((is.filter seen).foldl next a) s' := by
  induction is generalizing a s with
  | nil =>
    cases hr
    exact ha
  | cons i is ih =>
    obtain ⟨u,t,hstep,hrest⟩ := of_bind_ok hr
    cases hi : seen i with
    | false =>
      rw [List.filter_cons_of_neg (by simp [hi])]
      exact ih (h.stays i hi a s t ha hstep) hrest
    | true =>
      rw [List.filter_cons_of_pos hi]
      exact ih (h.moves i hi a s t ha hstep) hrest

end Stateful

namespace Rounds

variable {σ ε : Type} {step : σ → ε → σ}

/-- No event raises the potential, and one of the kind that it calls for lowers it. -/
structure Descends (step : σ → ε → σ) (good : σ → Prop) (potential : σ → Nat) (kind : Nat → ε → Prop) : Prop where
  keeps : ∀ s e, good s → good (step s e)
  le : ∀ s e, good s → potential (step s e) ≤ potential s
  lt : ∀ s e, good s → 0 < potential s → kind (potential s) e → potential (step s e) < potential s

namespace Descends

variable {good : σ → Prop} {potential : σ → Nat} {kind : Nat → ε → Prop}

theorem keeps_run (h : Descends step good potential kind) (events : List ε) {s : σ} (hs : good s) :
    good (events.foldl step s) ∧ potential (events.foldl step s) ≤ potential s := by
  induction events generalizing s with
  | nil => exact ⟨hs,Nat.le_refl _⟩
  | cons e events ih =>
    obtain ⟨hgood,hle⟩ := ih (h.keeps s e hs)
    exact ⟨hgood,Nat.le_trans hle (h.le s e hs)⟩

theorem round (h : Descends step good potential kind) {events : List ε} {s : σ} (hs : good s) (hpos : 0 < potential s)
    (hkind : ∃ e ∈ events, kind (potential s) e) : potential (events.foldl step s) < potential s := by
  induction events generalizing s with
  | nil =>
    obtain ⟨e,he,-⟩ := hkind
    cases he
  | cons e events ih =>
    have hnext := h.keeps s e hs
    rcases Nat.lt_or_eq_of_le (h.le s e hs) with hlt | heq
    · exact Nat.lt_of_le_of_lt (h.keeps_run events hnext).2 hlt
    · obtain ⟨e',hmem,hk⟩ := hkind
      have hrest : ∃ e' ∈ events, kind (potential (step s e)) e' := by
        rcases List.mem_cons.mp hmem with rfl | hmem
        · exact absurd heq (Nat.ne_of_lt (h.lt s e' hs hpos hk))
        · exact ⟨e',hmem,by rwa [heq]⟩
      have hlower := ih hnext (by rwa [heq]) hrest
      rwa [heq] at hlower

theorem rounds (h : Descends step good potential kind) (rs : List (List ε))
    (hrs : ∀ r ∈ rs, ∀ n, 0 < n → ∃ e ∈ r, kind n e) {s : σ} (hs : good s) :
    potential (rs.flatten.foldl step s) ≤ potential s-rs.length := by
  induction rs generalizing s with
  | nil => simp
  | cons r rs ih =>
    have hr := h.keeps_run r hs
    have hrest := ih (fun r hmem => hrs r (List.mem_cons_of_mem _ hmem)) hr.1
    rw [List.flatten_cons,List.foldl_append,List.length_cons]
    by_cases hpos : 0 < potential s
    · have hlower := h.round hs hpos (hrs r (List.mem_cons_self ..) _ hpos)
      omega
    · omega

end Descends

end Rounds

namespace History

variable {α : Type} {q q' : List α → α → Prop}

def Always (q : List α → α → Prop) (log : List α) : Prop := ∀ pre e post, log = pre ++ e :: post → q pre e

theorem always_nil : Always q [] := by
  intro pre e post h
  simp at h

theorem always_concat {log : List α} {e : α} : Always q (log ++ [e]) ↔ Always q log ∧ q log e := by
  constructor
  · intro h
    refine ⟨fun pre e' post heq => h pre e' (post ++ [e]) ?_,h log e [] rfl⟩
    rw [heq,List.append_assoc,List.cons_append]
  · rintro ⟨hlog,he⟩ pre e' post heq
    rcases List.eq_nil_or_concat post with rfl | ⟨post',last,rfl⟩
    · obtain ⟨rfl,hlast⟩ := List.append_inj' heq rfl
      cases hlast
      exact he
    · have hfront : log ++ [e] = (pre ++ e' :: post') ++ [last] := by
        rw [heq,List.concat_eq_append,List.append_assoc,List.cons_append]
      obtain ⟨hpre,-⟩ := List.append_inj' hfront rfl
      exact hlog pre e' post' hpre

theorem Always.mono {log : List α} (h : Always q log) (hq : ∀ pre e, q pre e → q' pre e) : Always q' log :=
  fun pre e post heq => hq pre e (h pre e post heq)

theorem Always.append {log new : List α} (h : Always q log) (hnew : ∀ e ∈ new, ∀ pre, q pre e) : Always q (log ++ new) := by
  induction new generalizing log with
  | nil => rwa [List.append_nil]
  | cons e new ih =>
    have he : Always q (log ++ [e]) := always_concat.mpr ⟨h,hnew e (List.mem_cons_self ..) log⟩
    have hrest := ih he fun e' he' => hnew e' (List.mem_cons_of_mem _ he')
    rwa [List.append_assoc,List.singleton_append] at hrest

end History
