import Mathlib.Data.List.Basic
set_option autoImplicit false

/-!
Programs that pull runs of items from a finite supply, as trees: a program is finished, has
failed, or asks for the next `n` items and goes on with them. What a program does depends
on the items it was given only, so one induction on the tree serves every reader.
-/

inductive Pull (β ε α : Type) where
  | done : α → Pull β ε α
  | fail : ε → Pull β ε α
  | pull : Nat → (List β → Pull β ε α) → Pull β ε α

/-- How a program ends on a given supply: finished, failed, or still `missing` items. -/
inductive Fed (β ε α : Type) where
  | done : α → List β → Fed β ε α
  | failed : ε → List β → Fed β ε α
  | short (missing : Nat) : Fed β ε α
  deriving DecidableEq, Repr

namespace Pull

variable {β ε α γ : Type}

def bind : Pull β ε α → (α → Pull β ε γ) → Pull β ε γ
  | .done a, f => f a
  | .fail e, _ => .fail e
  | .pull n k, f => .pull n (fun xs => (k xs).bind f)

instance : Monad (Pull β ε) where
  pure := .done
  bind := bind

def take (n : Nat) : Pull β ε (List β) := .pull n .done

@[simp] theorem pure_eq (a : α) : (pure a : Pull β ε α) = .done a := rfl
@[simp] theorem done_bind (a : α) (f : α → Pull β ε γ) : (Pull.done a >>= f) = f a := rfl
@[simp] theorem fail_bind (e : ε) (f : α → Pull β ε γ) : (Pull.fail e >>= f) = .fail e := rfl
@[simp] theorem pull_bind (n : Nat) (k : List β → Pull β ε α) (f : α → Pull β ε γ) :
    (Pull.pull n k >>= f) = .pull n (fun xs => k xs >>= f) := rfl

theorem bind_done (d : Pull β ε α) : d.bind .done = d := by
  induction d with
  | done a => rfl
  | fail e => rfl
  | pull n k ih => exact congrArg (Pull.pull n) (funext ih)

theorem bind_assoc {δ : Type} (d : Pull β ε α) (f : α → Pull β ε γ) (g : γ → Pull β ε δ) :
    (d.bind f).bind g = d.bind (fun a => (f a).bind g) := by
  induction d with
  | done a => rfl
  | fail e => rfl
  | pull n k ih => exact congrArg (Pull.pull n) (funext ih)

instance : LawfulMonad (Pull β ε) :=
  LawfulMonad.mk' _ bind_done (fun _ _ => rfl) bind_assoc

def feed : Pull β ε α → List β → Fed β ε α
  | .done a, xs => .done a xs
  | .fail e, xs => .failed e xs
  | .pull n k, xs =>
    if n ≤ xs.length then (k (xs.take n)).feed (xs.drop n) else .short (n-xs.length)

@[simp] theorem feed_done (a : α) (xs : List β) : (Pull.done a : Pull β ε α).feed xs = .done a xs := rfl
@[simp] theorem feed_fail (e : ε) (xs : List β) : (Pull.fail e : Pull β ε α).feed xs = .failed e xs := rfl

theorem feed_bind (d : Pull β ε α) (f : α → Pull β ε γ) (xs : List β) :
    (d >>= f).feed xs =
      match d.feed xs with
      | .done a rest => (f a).feed rest
      | .failed e rest => .failed e rest
      | .short m => .short m := by
  induction d generalizing xs with
  | done a => rfl
  | fail e => rfl
  | pull n k ih =>
    simp only [pull_bind,feed]
    by_cases h : n ≤ xs.length
    · simp only [h,if_true]
      exact ih _ _
    · simp [h]

def repeated (d : Pull β ε α) : Nat → Pull β ε (List α)
  | 0 => .done []
  | n+1 => do
    let a ← d
    let as ← repeated d n
    pure (a :: as)

/-- `d.Reads xs a`: on a supply that starts with `xs` the program takes exactly `xs`, and
finishes with `a`. -/
def Reads (d : Pull β ε α) (xs : List β) (a : α) : Prop :=
  ∀ tail, d.feed (xs ++ tail) = .done a tail

theorem Reads.done (a : α) : (Pull.done a : Pull β ε α).Reads [] a := fun _ => rfl

theorem Reads.bind {d : Pull β ε α} {f : α → Pull β ε γ} {xs ys : List β} {a : α} {c : γ}
    (hd : d.Reads xs a) (hf : (f a).Reads ys c) : (d >>= f).Reads (xs ++ ys) c := by
  intro tail
  rw [feed_bind,List.append_assoc,hd]
  exact hf tail

theorem Reads.map {d : Pull β ε α} {xs : List β} {a : α} (hd : d.Reads xs a) (g : α → γ) :
    (d >>= fun b => .done (g b)).Reads xs (g a) := by
  have h := hd.bind (f:=fun b => .done (g b)) (Reads.done (g a))
  rwa [List.append_nil] at h

theorem Reads.take (xs : List β) : (Pull.take xs.length : Pull β ε (List β)).Reads xs xs := by
  intro tail
  simp [Pull.take,feed]

theorem feed_append (d : Pull β ε α) (xs tail : List β) :
    match d.feed xs with
    | .done a rest => d.feed (xs ++ tail) = .done a (rest ++ tail)
    | .failed e rest => d.feed (xs ++ tail) = .failed e (rest ++ tail)
    | .short _ => True := by
  induction d generalizing xs with
  | done a => rfl
  | fail e => rfl
  | pull n k ih =>
    by_cases hn : n ≤ xs.length
    · have hlong : n ≤ (xs ++ tail).length := by rw [List.length_append]; omega
      have hnext := ih (xs.take n) (xs.drop n)
      simpa only [feed,hn,hlong,if_true,List.take_append_of_le_length hn,List.drop_append_of_le_length hn] using hnext
    · simp only [feed,hn,if_false]

/-- On less than it takes a program runs short. -/
theorem Reads.short {d : Pull β ε α} {xs ys : List β} {a : α} (h : d.Reads xs a) (hys : ys <+: xs) (hne : ys ≠ xs) :
    ∃ missing, d.feed ys = .short missing := by
  obtain ⟨tail,rfl⟩ := hys
  have hfull := h []
  have happend := feed_append d ys tail
  rw [List.append_nil] at hfull
  cases hd : d.feed ys with
  | done b rest =>
    simp only [hd,hfull] at happend
    obtain ⟨-,hnil⟩ := (Fed.done.injEq ..).mp happend
    have htail : tail = [] := (List.append_eq_nil_iff.mp hnil.symm).2
    exact absurd (by rw [htail,List.append_nil]) hne
  | failed e rest => simp [hd,hfull] at happend
  | short missing => exact ⟨missing,rfl⟩

/-- What is read back can be written in one way only, whatever is behind it. -/
theorem Reads.unique {d : Pull β ε α} {xs ys tail tail' : List β} {a b : α} (hx : d.Reads xs a) (hy : d.Reads ys b)
    (h : xs ++ tail = ys ++ tail') : a = b ∧ tail = tail' := by
  have hdone := hx tail
  rw [h,hy tail'] at hdone
  obtain ⟨hb,htail⟩ := (Fed.done.injEq ..).mp hdone
  exact ⟨hb.symm,htail.symm⟩

theorem Reads.repeated {δ : Type} {d : Pull β ε α} {write : δ → List β} {item : δ → α} {items : List δ}
    (h : ∀ x ∈ items, d.Reads (write x) (item x)) :
    (Pull.repeated d items.length).Reads (items.flatMap write) (items.map item) := by
  induction items with
  | nil => exact Reads.done []
  | cons x items ih =>
    have hx := h x (by simp)
    have hrest := ih fun y hy => h y (by simp [hy])
    exact hx.bind (hrest.map fun as => item x :: as)

theorem Reads.repeated_self {d : Pull β ε α} {write : α → List β} {items : List α}
    (h : ∀ x ∈ items, d.Reads (write x) x) : (Pull.repeated d items.length).Reads (items.flatMap write) items := by
  have hrepeated := Reads.repeated h
  rwa [List.map_id'] at hrepeated

/-- Given as many items as it asks for, a program makes allowed requests only and ends as it may. -/
def Sound (request : Nat → Prop) (fails : ε → Prop) (P : α → Prop) : Pull β ε α → Prop
  | .done a => P a
  | .fail e => fails e
  | .pull n k => request n ∧ ∀ xs : List β, xs.length = n → (k xs).Sound request fails P

section

variable {request : Nat → Prop} {fails : ε → Prop} {P : α → Prop} {Q : γ → Prop}

theorem Sound.take {n : Nat} (h : request n) :
    (Pull.take n : Pull β ε (List β)).Sound request fails fun xs => xs.length = n :=
  ⟨h,fun _ hlength => hlength⟩

theorem Sound.bind {d : Pull β ε α} {f : α → Pull β ε γ} (hd : d.Sound request fails P)
    (hf : ∀ a, P a → (f a).Sound request fails Q) : (d >>= f).Sound request fails Q := by
  induction d with
  | done a => exact hf a hd
  | fail e => exact hd
  | pull n k ih => exact ⟨hd.1,fun xs hlength => ih xs (hd.2 xs hlength)⟩

theorem Sound.repeated {d : Pull β ε α} (hd : d.Sound request fails P) (n : Nat) :
    (Pull.repeated d n).Sound request fails fun as => ∀ a ∈ as, P a := by
  induction n with
  | zero => exact fun a ha => absurd ha List.not_mem_nil
  | succ n ih =>
    refine hd.bind fun a ha => ih.bind fun as has => ?_
    intro b hb
    rcases List.mem_cons.mp hb with rfl | hb
    · exact ha
    · exact has b hb

end

end Pull
