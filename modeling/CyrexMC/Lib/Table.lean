import Mathlib.Data.List.Basic
import Mathlib.Logic.Function.Basic
set_option autoImplicit false

structure Table (κ α : Type) where
  entries : List (κ × α)
  nodup : (entries.map Prod.fst).Nodup

namespace Table

variable {κ α : Type} [DecidableEq κ]

def empty : Table κ α := ⟨[],List.nodup_nil⟩

def get? (t : Table κ α) (k : κ) : Option α := t.entries.lookup k

def keys (t : Table κ α) : List κ := t.entries.map Prod.fst

theorem lookup_isSome (entries : List (κ × α)) (k : κ) :
    (entries.lookup k).isSome ↔ k ∈ entries.map Prod.fst := by
  induction entries with
  | nil => simp
  | cons e entries ih =>
    obtain ⟨k',a⟩ := e
    by_cases h : k = k'
    · simp [h]
    · have hb : (k == k') = false := by simpa using h
      simp [List.lookup_cons,hb,h,ih]

theorem get?_isSome (t : Table κ α) (k : κ) : (t.get? k).isSome ↔ k ∈ t.keys := lookup_isSome _ _

def emplace (t : Table κ α) (k : κ) (a : α) : Table κ α :=
  if h : (t.get? k).isSome then t
  else ⟨(k,a) :: t.entries,List.nodup_cons.mpr ⟨fun hk => h ((t.get?_isSome k).mpr hk),t.nodup⟩⟩

def set (t : Table κ α) (k : κ) (a : α) : Table κ α :=
  ⟨t.entries.map fun e => if e.1 = k then (k,a) else e,by
    have h : (t.entries.map fun e => if e.1 = k then (k,a) else e).map Prod.fst =
        t.entries.map Prod.fst := by
      rw [List.map_map]
      apply List.map_congr_left
      intro e _
      by_cases he : e.1 = k <;> simp [he]
    rw [h]
    exact t.nodup⟩

def eraseIf (t : Table κ α) (p : α → Bool) : Table κ α :=
  ⟨t.entries.filter fun e => !p e.2,t.nodup.sublist (List.filter_sublist.map Prod.fst)⟩

@[simp] theorem get?_empty (k : κ) : (empty : Table κ α).get? k = none := rfl

theorem get?_emplace (t : Table κ α) (k k' : κ) (a : α) :
    (t.emplace k a).get? k' =
      if k' = k then some ((t.get? k).getD a) else t.get? k' := by
  by_cases h : (t.get? k).isSome
  · obtain ⟨b,hb⟩ := Option.isSome_iff_exists.mp h
    by_cases hk : k' = k
    · subst k'
      simp [emplace,hb]
    · simp [emplace,h,hk]
  · have hn : t.entries.lookup k = none := Option.not_isSome_iff_eq_none.mp h
    by_cases hk : k' = k
    · subst k'
      simp [emplace,get?,hn]
    · have hb : (k' == k) = false := by simpa using hk
      simp [emplace,get?,hn,List.lookup_cons,hb,hk]

theorem lookup_set (entries : List (κ × α)) (k k' : κ) (a : α) :
    (entries.map fun e => if e.1 = k then (k,a) else e).lookup k' =
      if k' = k then (entries.lookup k).map fun _ => a else entries.lookup k' := by
  induction entries with
  | nil => simp
  | cons e entries ih =>
    obtain ⟨l,b⟩ := e
    by_cases hl : l = k
    · subst l
      by_cases hk : k' = k
      · subst k'
        simp
      · have hb : (k' == k) = false := by simpa using hk
        simp only [hk,if_false] at ih
        simp [List.lookup_cons,hb,hk,ih]
    · by_cases hk : k' = l
      · subst k'
        simp [hl]
      · have hb : (k' == l) = false := by simpa using hk
        by_cases hkk : k' = k
        · subst k'
          simp only [if_true] at ih
          simp [List.lookup_cons,hl,hb,ih]
        · simp only [hkk,if_false] at ih
          simp [List.lookup_cons,hl,hb,hkk,ih]

theorem get?_set (t : Table κ α) (k k' : κ) (a : α) :
    (t.set k a).get? k' = if k' = k then (t.get? k).map fun _ => a else t.get? k' :=
  lookup_set t.entries k k' a

theorem lookup_of_mem {entries : List (κ × α)} (hnodup : (entries.map Prod.fst).Nodup) {e : κ × α}
    (he : e ∈ entries) : entries.lookup e.1 = some e.2 := by
  induction entries with
  | nil => cases he
  | cons first entries ih =>
    obtain ⟨l,b⟩ := first
    rw [List.map_cons,List.nodup_cons] at hnodup
    cases he with
    | head => simp
    | tail _ he =>
      have hkey : e.1 ∈ entries.map Prod.fst := List.mem_map_of_mem he
      have hne : e.1 ≠ l := fun heq => hnodup.1 (heq ▸ hkey)
      have hb : (e.1 == l) = false := by simpa using hne
      simpa [List.lookup_cons,hb] using ih hnodup.2 he

theorem set_get? {t : Table κ α} {k : κ} {a : α} (h : t.get? k = some a) : t.set k a = t := by
  obtain ⟨entries,hnodup⟩ := t
  have hsame : (entries.map fun e => if e.1 = k then (k,a) else e) = entries := by
    conv_rhs => rw [← List.map_id entries]
    apply List.map_congr_left
    intro e he
    by_cases hk : e.1 = k
    · subst hk
      have hvalue : some a = some e.2 := h.symm.trans (lookup_of_mem hnodup he)
      rw [if_pos rfl,Option.some.inj hvalue,id]
    · rw [if_neg hk,id]
  simp only [set,hsame]

theorem get?_eraseIf (t : Table κ α) (p : α → Bool) (k : κ) :
    (t.eraseIf p).get? k = (t.get? k).filter fun a => !p a := by
  obtain ⟨entries,hnodup⟩ := t
  simp only [get?,eraseIf]
  induction entries with
  | nil => rfl
  | cons e entries ih =>
    obtain ⟨l,b⟩ := e
    rw [List.map_cons,List.nodup_cons] at hnodup
    have hi := ih hnodup.2
    by_cases hk : k = l
    · subst k
      -- The key occurs once, so no later entry can take the place of a dropped one.
      have habsent : entries.lookup l = none :=
        Option.not_isSome_iff_eq_none.mp ((lookup_isSome entries l).not.mpr hnodup.1)
      rw [habsent,Option.filter_none] at hi
      by_cases hp : p b
      · rw [List.filter_cons_of_neg (by simp [hp]),hi]
        simp [Option.filter,hp]
      · rw [List.filter_cons_of_pos (by simp [hp])]
        simp [Option.filter,hp]
    · have hb : (k == l) = false := by simpa using hk
      by_cases hp : p b
      · simpa [List.lookup_cons,hp,hb] using hi
      · simpa [List.lookup_cons,hp,hb] using hi

end Table

namespace Assignments

variable {κ α : Type} [DecidableEq κ]

inductive Op (κ α : Type) where
  | put : κ → α → Op κ α
  | drop : κ → Op κ α

def Op.key : Op κ α → κ
  | .put k _ => k
  | .drop k => k

def Op.value : Op κ α → Option α
  | .put _ a => some a
  | .drop _ => none

def apply (m : κ → Option α) (op : Op κ α) : κ → Option α := Function.update m op.key op.value

def run (m : κ → Option α) (ops : List (Op κ α)) : κ → Option α := ops.foldl apply m

theorem run_append (m : κ → Option α) (ops more : List (Op κ α)) : run m (ops ++ more) = run (run m ops) more :=
  List.foldl_append

theorem run_puts (m : κ → Option α) (keys : List κ) (a : α) (k : κ) :
    run m (keys.map fun k => .put k a) k = if k ∈ keys then some a else m k := by
  induction keys generalizing m with
  | nil => simp [run]
  | cons k' keys ih =>
    have hrest := ih (apply m (.put k' a))
    simp only [run,List.map_cons,List.foldl_cons,List.mem_cons] at hrest ⊢
    rw [hrest]
    by_cases hmem : k ∈ keys
    · simp [hmem]
    · by_cases hk : k = k'
      · simp [hk,apply,Op.key,Op.value]
      · simp [hmem,hk,apply,Op.key,Op.value]

end Assignments
