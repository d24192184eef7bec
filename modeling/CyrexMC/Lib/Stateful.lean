import Mathlib.Logic.Relation
set_option autoImplicit false

/-!
Programs over a state that may throw. `Within` says what one run can do to the state and what
it can throw; `Coupled` compares two runs that both return.
-/

namespace Stateful

variable {ε σ τ α β γ δ : Type}

def fromExcept : Except ε α → EStateM ε σ α
  | .ok a => pure a
  | .error e => throw e

@[simp] theorem fromExcept_ok (a : α) (s : σ) : (fromExcept (.ok a : Except ε α)) s = .ok a s := rfl
@[simp] theorem fromExcept_error (e : ε) (s : σ) :
    (fromExcept (.error e : Except ε α)) s = .error e s := rfl

theorem bind_apply (m : EStateM ε σ α) (f : α → EStateM ε σ β) (s : σ) :
    (m >>= f) s = match m s with
      | .ok a t => f a t
      | .error e t => .error e t := rfl

theorem map_apply (f : α → β) (m : EStateM ε σ α) (s : σ) :
    (f <$> m) s = match m s with
      | .ok a t => .ok (f a) t
      | .error e t => .error e t := by
  change EStateM.map f m s = _
  unfold EStateM.map
  rfl

theorem bind_ok {m : EStateM ε σ α} {f : α → EStateM ε σ β} {s t : σ} {a : α}
    (h : m s = .ok a t) : (m >>= f) s = f a t := by
  rw [bind_apply,h]

theorem bind_error {m : EStateM ε σ α} {f : α → EStateM ε σ β} {s t : σ} {e : ε}
    (h : m s = .error e t) : (m >>= f) s = .error e t := by
  rw [bind_apply,h]

theorem of_bind_ok {m : EStateM ε σ α} {f : α → EStateM ε σ β} {s u : σ} {b : β}
    (h : (m >>= f) s = .ok b u) : ∃ a t, m s = .ok a t ∧ f a t = .ok b u := by
  rw [bind_apply] at h
  cases hm : m s with
  | ok a t => exact ⟨a,t,rfl,by simpa [hm] using h⟩
  | error e t => simp [hm] at h

theorem except_bind_ok {x : Except ε α} {f : α → Except ε β} {b : β} :
    (x >>= f) = .ok b ↔ ∃ a, x = .ok a ∧ f a = .ok b := by
  cases x with
  | error e => simp [bind,Except.bind]
  | ok a => simp [bind,Except.bind]

@[simp] theorem pure_apply (a : α) (s : σ) : (pure a : EStateM ε σ α) s = .ok a s := rfl
@[simp] theorem throw_apply (e : ε) (s : σ) : (throw e : EStateM ε σ α) s = .error e s := rfl
@[simp] theorem get_apply (s : σ) : (get : EStateM ε σ σ) s = .ok s s := rfl
@[simp] theorem set_apply (s t : σ) : (set t : EStateM ε σ PUnit) s = .ok ⟨⟩ t := rfl
@[simp] theorem modify_apply (f : σ → σ) (s : σ) :
    (modify f : EStateM ε σ PUnit) s = .ok ⟨⟩ (f s) := rfl

theorem tryCatch_apply (m : EStateM ε σ α) (c : ε → EStateM ε σ α) (s : σ) :
    tryCatch m c s = match m s with
      | .ok a t => .ok a t
      | .error e t => c e t := by
  change EStateM.tryCatch m c s = _
  delta EStateM.tryCatch
  cases m s with
  | ok a t => rfl
  | error e t => rfl

/-- A bound on runs: how the state may change, and what may be thrown from a state on. -/
structure Bound (R : σ → σ → Prop) (E : σ → ε → Prop) : Prop where
  refl : ∀ s, R s s
  trans : ∀ s t u, R s t → R t u → R s u
  back : ∀ s t e, R s t → E t e → E s e

section Within

variable {R : σ → σ → Prop} {E : σ → ε → Prop}

/-- The run of `m` from `s` changes the state along `R` and throws only what `E` allows. -/
def WithinAt (R : σ → σ → Prop) (E : σ → ε → Prop) (m : EStateM ε σ α) (s : σ) : Prop :=
  match m s with
  | .ok _ t => R s t
  | .error e t => R s t ∧ E s e

def Within (R : σ → σ → Prop) (E : σ → ε → Prop) (m : EStateM ε σ α) : Prop :=
  ∀ s, WithinAt R E m s

theorem Within.ok {m : EStateM ε σ α} (hm : Within R E m) {s t : σ} {a : α}
    (h : m s = .ok a t) : R s t := by
  have hs := hm s
  rwa [WithinAt,h] at hs

theorem Within.error {m : EStateM ε σ α} (hm : Within R E m) {s t : σ} {e : ε}
    (h : m s = .error e t) : R s t ∧ E s e := by
  have hs := hm s
  rwa [WithinAt,h] at hs

theorem Within.mono {R' : σ → σ → Prop} {E' : σ → ε → Prop} {m : EStateM ε σ α} (hm : Within R E m)
    (hR : ∀ s t, R s t → R' s t) (hE : ∀ s e, E s e → E' s e) : Within R' E' m := by
  intro s
  unfold WithinAt
  cases h : m s with
  | ok a t => exact hR s t (hm.ok h)
  | error e t =>
    obtain ⟨hst,he⟩ := hm.error h
    exact ⟨hR s t hst,hE s e he⟩

variable (B : Bound R E)
include B

theorem Within.returns (a : α) : Within R E (pure a : EStateM ε σ α) := fun s => B.refl s

theorem Within.raises {e : ε} (he : ∀ s, E s e) : Within R E (throw e : EStateM ε σ α) :=
  fun s => ⟨B.refl s,he s⟩

theorem Within.excepts {x : Except ε α} (h : ∀ e, x = .error e → ∀ s, E s e) :
    Within R E (fromExcept x : EStateM ε σ α) := by
  intro s
  cases x with
  | ok a => exact B.refl s
  | error e => exact ⟨B.refl s,h e rfl s⟩

theorem Within.bind {m : EStateM ε σ α} {f : α → EStateM ε σ β} (hm : Within R E m)
    (hf : ∀ a, Within R E (f a)) : Within R E (m >>= f) := by
  intro s
  rw [WithinAt,bind_apply]
  cases h : m s with
  | ok a t =>
    have hst := hm.ok h
    cases hfa : f a t with
    | ok b u => simpa [hfa] using B.trans s t u hst ((hf a).ok hfa)
    | error e u =>
      obtain ⟨htu,he⟩ := (hf a).error hfa
      simpa [hfa] using ⟨B.trans s t u hst htu,B.back s t e hst he⟩
  | error e t => exact hm.error h

theorem Within.rethrow {m : EStateM ε σ α} {f : σ → σ} (hm : Within R E m) (hf : ∀ s, R s (f s)) :
    Within R E (tryCatch m fun e => do
      modify f
      throw e) := by
  intro s
  rw [WithinAt,tryCatch_apply]
  cases h : m s with
  | ok a t => exact hm.ok h
  | error e t =>
    obtain ⟨hst,he⟩ := hm.error h
    exact ⟨B.trans s t (f t) hst (hf t),he⟩

end Within

/-- What holds where a run returns, and where it throws. -/
def Lands (Q : α → σ → Prop) (E : σ → Prop) : EStateM.Result ε σ α → Prop
  | .ok a s => Q a s
  | .error _ s => E s

namespace Lands

variable {Q : α → σ → Prop} {Q' : β → σ → Prop} {E E' : σ → Prop}

theorem bind {m : EStateM ε σ α} {f : α → EStateM ε σ β} {s : σ} (hm : Lands Q E (m s)) (hthrows : ∀ t, E t → E' t)
    (hok : ∀ a t, m s = .ok a t → Q a t → Lands Q' E' (f a t)) : Lands Q' E' ((m >>= f) s) := by
  cases h : m s with
  | ok a t =>
    rw [h] at hm
    rw [bind_ok h]
    exact hok a t h hm
  | error e t =>
    rw [h] at hm
    rw [bind_error h]
    exact hthrows t hm

theorem mono {P : α → σ → Prop} {r : EStateM.Result ε σ α} (h : Lands Q E r) (hQ : ∀ a s, Q a s → P a s)
    (hE : ∀ s, E s → E' s) : Lands P E' r := by
  cases r with
  | ok a s => exact hQ a s h
  | error e s => exact hE s h

theorem of_within {R : σ → σ → Prop} {T : σ → ε → Prop} {m : EStateM ε σ α} (hm : Within R T m) (s : σ) :
    Lands (fun _ => R s) (R s) (m s) := by
  cases h : m s with
  | ok a t => exact hm.ok h
  | error e t => exact (hm.error h).1

end Lands

/-- Whenever two runs from related states both return, they return related values in related
states. -/
def Coupled (R : σ → τ → Prop) (Q : α → β → Prop) (m : EStateM ε σ α) (n : EStateM ε τ β) : Prop :=
  ∀ s t, R s t → ∀ a s' b t', m s = .ok a s' → n t = .ok b t' → Q a b ∧ R s' t'

namespace Coupled

variable {R : σ → τ → Prop} {Q : α → β → Prop} {Q' : γ → δ → Prop}

theorem returns {a : α} {b : β} (h : Q a b) :
    Coupled R Q (pure a : EStateM ε σ α) (pure b : EStateM ε τ β) := by
  intro s t hst c s' d t' hc hd
  cases hc
  cases hd
  exact ⟨h,hst⟩

theorem bind {m : EStateM ε σ α} {n : EStateM ε τ β} {f : α → EStateM ε σ γ} {g : β → EStateM ε τ δ}
    (hm : Coupled R Q m n) (hf : ∀ a b, Q a b → Coupled R Q' (f a) (g b)) :
    Coupled R Q' (m >>= f) (n >>= g) := by
  intro s t hst c u d v hc hd
  obtain ⟨a,s',ha,hfa⟩ := of_bind_ok hc
  obtain ⟨b,t',hb,hgb⟩ := of_bind_ok hd
  obtain ⟨hab,hst'⟩ := hm s t hst a s' b t' ha hb
  exact hf a b hab s' t' hst' c u d v hfa hgb

theorem raises_left {e : ε} {n : EStateM ε τ β} : Coupled R Q (throw e : EStateM ε σ α) n := by
  intro s t _ a s' b t' h
  simp at h

theorem excepts (x : Except ε α) :
    Coupled R Eq (fromExcept x : EStateM ε σ α) (fromExcept x : EStateM ε τ α) := by
  cases x with
  | ok a => exact returns rfl
  | error e => exact raises_left

theorem rethrow {m : EStateM ε σ α} {n : EStateM ε τ β} {f : σ → σ} {g : τ → τ} (h : Coupled R Q m n) :
    Coupled R Q (tryCatch m fun e => do modify f; throw e) (tryCatch n fun e => do modify g; throw e) := by
  intro s t hst a s' b t' hs ht
  rw [tryCatch_apply] at hs ht
  cases hm : m s with
  | error e u => simp [hm,bind_apply] at hs
  | ok c u =>
    cases hn : n t with
    | error e v => simp [hn,bind_apply] at ht
    | ok d v =>
      simp only [hm,EStateM.Result.ok.injEq] at hs
      simp only [hn,EStateM.Result.ok.injEq] at ht
      obtain ⟨rfl,rfl⟩ := hs
      obtain ⟨rfl,rfl⟩ := ht
      exact h s t hst c u d v hm hn

theorem update {f : σ → σ} {g : τ → τ} (h : ∀ s t, R s t → R (f s) (g t)) :
    Coupled R (fun _ _ => True) (modify f : EStateM ε σ PUnit) (modify g : EStateM ε τ PUnit) := by
  intro s t hst c s' d t' hc hd
  cases hc
  cases hd
  exact ⟨trivial,h s t hst⟩

end Coupled

/-- From every state with `P`, `m` returns: a value with `Q`, in a state with `P` again. -/
def Total (P : σ → Prop) (Q : α → Prop) (m : EStateM ε σ α) : Prop :=
  ∀ s, P s → ∃ a t, m s = .ok a t ∧ Q a ∧ P t

namespace Total

variable {P : σ → Prop} {Q : α → Prop} {Q' : β → Prop}

theorem returns {a : α} (h : Q a) : Total P Q (pure a : EStateM ε σ α) :=
  fun s hs => ⟨a,s,rfl,h,hs⟩

theorem update {f : σ → σ} (h : ∀ s, P s → P (f s)) :
    Total P (fun _ => True) (modify f : EStateM ε σ PUnit) :=
  fun s hs => ⟨⟨⟩,f s,rfl,trivial,h s hs⟩

theorem excepts {x : Except ε α} {a : α} (hx : x = .ok a) (h : Q a) :
    Total P Q (fromExcept x : EStateM ε σ α) := by
  subst hx
  exact returns h

theorem bind {m : EStateM ε σ α} {f : α → EStateM ε σ β} (hm : Total P Q m)
    (hf : ∀ a, Q a → Total P Q' (f a)) : Total P Q' (m >>= f) := by
  intro s hs
  obtain ⟨a,t,ha,hq,ht⟩ := hm s hs
  obtain ⟨b,u,hb,hq',hu⟩ := hf a hq t ht
  exact ⟨b,u,(bind_ok ha).trans hb,hq',hu⟩

end Total

end Stateful
