import CyrexMC.Basic
import CyrexMC.Lib.Numerals
import Mathlib.Algebra.Group.Nat.Defs
import Mathlib.Logic.Function.Basic
import Mathlib.Logic.Relation
set_option autoImplicit false

/-! `server/main.cpp`: the lock file, under any number of processes that start, stop and die. -/

namespace CyrexMC.LockFile

/-- `in >> pid`: of a text that is no number nothing but the zero is left, and one that does not fit
gives the largest. -/
def extractPid (content : Bytes) : UInt64 :=
  match Decimal.signed? content with
  | none => 0
  | some (negative,m) =>
    if m ≥ 2^64 then UInt64.ofNat (2^64-1) else if negative then -UInt64.ofNat m else UInt64.ofNat m

/-- Where `main` is in a process. -/
inductive Phase where
  /-- Before `exists(lockFile)`. -/
  | checking
  /-- Before `ifstream in(lockFile)`. -/
  | opening
  /-- Before `in >> pid`; no file if it could not be opened. -/
  | reading (file : Option Nat)
  | testing (pid : UInt64)
  /-- Waits for ENTER, to return 1. -/
  | refused
  | removing
  /-- Before `ofstream out(lockFile)`. -/
  | creating
  /-- The file is open and empty until `out` goes out of scope. -/
  | writing (file : Nat)
  | serving
  /-- Before the `removeLock` behind `server.run()`. -/
  | stopping
  /-- Before the `removeLock` of `onExit` or `onSignal`. -/
  | leaving
  | gone
  deriving DecidableEq

def Phase.starts : Phase → Bool
  | .checking | .opening | .reading _ | .testing _ | .removing | .creating | .writing _ => true
  | _ => false

def Phase.passed : Phase → Bool
  | .removing | .creating | .writing _ => true
  | _ => false

def Phase.leaves : Phase → Bool
  | .stopping | .leaving => true
  | _ => false

@[simp] theorem Phase.starts_gone : Phase.gone.starts = false := rfl

@[simp] theorem Phase.passed_gone : Phase.gone.passed = false := rfl

@[simp] theorem Phase.leaves_gone : Phase.gone.leaves = false := rfl

theorem Phase.starts_of_passed {phase : Phase} (h : phase.passed = true) : phase.starts = true := by
  cases phase <;> first | rfl | cases h

/-- The processes by their pids, and the file system as far as the lock goes: the file that the name
stands for, and what is in the files that had it. -/
structure State where
  phase : Nat → Phase
  link : Option Nat
  files : Nat → Bytes
  fresh : Nat
  /-- What `kill(pid, 0)` finds besides the servers. -/
  others : Int → Bool

def State.enter (s : State) (p : Nat) (phase : Phase) : State := { s with phase := Function.update s.phase p phase }

/-- `kill(pid, 0) == 0`. -/
def State.kill (s : State) (pid : Int) : Bool := (0 < pid ∧ s.phase pid.toNat ≠ .gone) ∨ s.others pid

/-- `static_cast<pid_t>` keeps the low 32 bits. -/
def State.isProcessAlive (s : State) (pid : UInt64) : Bool := s.kill pid.toUInt32.toInt32.toInt

def State.removeLock (s : State) : State := { s with link := none }

def overwrite (content new : Bytes) : Bytes := new ++ content.drop new.length

def advance (s : State) (p : Nat) : State :=
  match s.phase p with
  | .checking => s.enter p (if s.link.isSome then .opening else .creating)
  | .opening => s.enter p (.reading s.link)
  | .reading file => s.enter p (.testing (extractPid (file.elim [] s.files)))
  | .testing pid => s.enter p (if pid ≠ 0 ∧ s.isProcessAlive pid then .refused else .removing)
  | .removing => s.removeLock.enter p .creating
  | .creating =>
    match s.link with
    | some file => { s with files := Function.update s.files file [] }.enter p (.writing file)
    | none =>
      { s with link := some s.fresh, files := Function.update s.files s.fresh [], fresh := s.fresh+1 }.enter p
        (.writing s.fresh)
  | .writing file =>
    { s with files := Function.update s.files file (overwrite (s.files file) (Decimal.digits p)) }.enter p .serving
  | .stopping => s.removeLock.enter p .leaving
  | .leaving => s.removeLock.enter p .gone
  | .refused => s.enter p .gone
  | .serving | .gone => s

inductive Event where
  | launch (p : Nat)
  | advance (p : Nat)
  /-- `server.run()` returns. -/
  | finish (p : Nat)
  | signal (p : Nat)
  /-- It dies without a handler. -/
  | crash (p : Nat)
  | outside (others : Int → Bool)

def step (s : State) : Event → Option State
  | .launch p =>
    if 0 < p ∧ p < 2^31 ∧ s.phase p = .gone ∧ s.others p = false then some (s.enter p .checking) else none
  | .advance p => some (advance s p)
  | .finish p => if s.phase p = .serving then some (s.enter p .stopping) else none
  | .signal p => if s.phase p = .serving ∨ (s.phase p).leaves then some (s.enter p .leaving) else none
  | .crash p => some (s.enter p .gone)
  | .outside others => some { s with others }

def run (s : State) : List Event → Option State
  | [] => some s
  | e :: es => (step s e).bind fun s => run s es

/-- Two processes do not start at a time, and none leaves while another has the lock file open. -/
structure Orderly (s : State) : Prop where
  starts : ∀ p q, (s.phase p).starts → (s.phase q).starts → p = q
  leaves : ∀ p q file, s.phase p = .writing file → ¬ (s.phase q).leaves

/-- No server is there yet; a lock file may be, with anything in it. -/
def Initial (s : State) : Prop := ∀ p, s.phase p = .gone

def OrderlyStep (s s' : State) : Prop := (∃ e, step s e = some s') ∧ Orderly s'

structure Inv (s : State) : Prop where
  pid : ∀ p, s.phase p ≠ .gone → 0 < p ∧ p < 2^31
  named : ∀ p, s.phase p = .serving → ∃ file, s.link = some file ∧ s.files file = Decimal.digits p
  unique : ∀ p q, s.phase p = .serving → s.phase q = .serving → p = q
  alone : ∀ p q, s.phase p = .serving → ¬ (s.phase q).leaves
  opened : ∀ p q file, s.phase p = .reading file → s.phase q = .serving → file = s.link
  tested : ∀ p q pid, s.phase p = .testing pid → s.phase q = .serving → pid.toNat = q
  passed : ∀ p q, (s.phase p).passed → s.phase q ≠ .serving
  written : ∀ p file, s.phase p = .writing file → s.link = some file ∧ s.files file = []

theorem extractPid_digits {p : Nat} (hp : p < 2^64) : extractPid (Decimal.digits p) = UInt64.ofNat p := by
  have hlt : ¬ p ≥ 2^64 := Nat.not_le.mpr hp
  simp only [extractPid,Decimal.signed?_digits,hlt,if_false,Bool.false_eq_true]

theorem toInt_pid {p : Nat} (hp : p < 2^31) : (UInt64.ofNat p).toUInt32.toInt32.toInt = p := by
  rw [UInt64.toUInt32_ofNat']
  exact Int32.toInt_ofNat_of_lt hp

theorem toNat_pid {p : Nat} (hp : p < 2^31) : (UInt64.ofNat p).toNat = p := by
  rw [UInt64.toNat_ofNat',Nat.mod_eq_of_lt (by omega)]

theorem kill_iff (s : State) (pid : Int) :
    s.kill pid = true ↔ (0 < pid ∧ s.phase pid.toNat ≠ .gone) ∨ s.others pid = true := by
  simp [State.kill]

theorem isProcessAlive_of {s : State} {p : Nat} (hpos : 0 < p) (hp : p < 2^31) (h : s.phase p ≠ .gone) :
    s.isProcessAlive (UInt64.ofNat p) = true := by
  rw [State.isProcessAlive,toInt_pid hp,kill_iff,Int.toNat_natCast]
  exact Or.inl ⟨by omega,h⟩

section

variable {s : State} {p : Nat}

theorem Inv.enter (h : Inv s) {phase : Phase} (hpid : phase ≠ .gone → 0 < p ∧ p < 2^31) (hserving : phase ≠ .serving)
    (hleaves : phase.leaves → ∀ q, q ≠ p → s.phase q ≠ .serving)
    (hopened : ∀ q file, phase = .reading file → q ≠ p → s.phase q = .serving → file = s.link)
    (htested : ∀ q pid, phase = .testing pid → q ≠ p → s.phase q = .serving → pid.toNat = q)
    (hpassed : phase.passed → ∀ q, q ≠ p → s.phase q ≠ .serving)
    (hwritten : ∀ file, phase = .writing file → s.link = some file ∧ s.files file = []) : Inv (s.enter p phase) := by
  have hsame : (s.enter p phase).phase p = phase := Function.update_self ..
  have hother : ∀ q, q ≠ p → (s.enter p phase).phase q = s.phase q := fun q hq => Function.update_of_ne hq _ _
  have hserves : ∀ q, (s.enter p phase).phase q = .serving → q ≠ p ∧ s.phase q = .serving := by
    intro q hq
    by_cases hqp : q = p
    · subst q
      exact absurd (hsame.symm.trans hq) hserving
    · exact ⟨hqp,(hother q hqp).symm.trans hq⟩
  refine ⟨?_,?_,?_,?_,?_,?_,?_,?_⟩
  · intro q hq
    by_cases hqp : q = p
    · subst q
      exact hpid (hsame ▸ hq)
    · exact h.pid q (hother q hqp ▸ hq)
  · exact fun q hq => h.named q (hserves q hq).2
  · exact fun q r hq hr => h.unique q r (hserves q hq).2 (hserves r hr).2
  · intro q r hq hr
    obtain ⟨hqp,hq⟩ := hserves q hq
    by_cases hrp : r = p
    · subst r
      exact hleaves (hsame ▸ hr) q hqp hq
    · exact h.alone q r hq (hother r hrp ▸ hr)
  · intro q r file hq hr
    obtain ⟨hrp,hr⟩ := hserves r hr
    by_cases hqp : q = p
    · subst q
      exact hopened r file (hsame.symm.trans hq) hrp hr
    · exact h.opened q r file ((hother q hqp).symm.trans hq) hr
  · intro q r pid hq hr
    obtain ⟨hrp,hr⟩ := hserves r hr
    by_cases hqp : q = p
    · subst q
      exact htested r pid (hsame.symm.trans hq) hrp hr
    · exact h.tested q r pid ((hother q hqp).symm.trans hq) hr
  · intro q r hq hr
    obtain ⟨hrp,hr⟩ := hserves r hr
    by_cases hqp : q = p
    · subst q
      exact hpassed (hsame ▸ hq) r hrp hr
    · exact h.passed q r (hother q hqp ▸ hq) hr
  · intro q file hq
    by_cases hqp : q = p
    · subst q
      exact hwritten file (hsame.symm.trans hq)
    · exact h.written q file ((hother q hqp).symm.trans hq)

theorem Inv.pass (h : Inv s) {phase : Phase} (hpid : phase ≠ .gone → 0 < p ∧ p < 2^31) (hserving : phase ≠ .serving)
    (hnone : ∀ q, q ≠ p → s.phase q ≠ .serving)
    (hwritten : ∀ file, phase = .writing file → s.link = some file ∧ s.files file = []) : Inv (s.enter p phase) :=
  h.enter hpid hserving (fun _ => hnone) (fun q _ _ hq hqs => absurd hqs (hnone q hq))
    (fun q _ _ hq hqs => absurd hqs (hnone q hq)) (fun _ => hnone) hwritten

def Phase.idle : Phase → Bool
  | .checking | .opening | .refused | .gone => true
  | _ => false

theorem Inv.idle (h : Inv s) {phase : Phase} (hpid : phase ≠ .gone → 0 < p ∧ p < 2^31) (hidle : phase.idle = true) :
    Inv (s.enter p phase) := by
  cases phase <;> first
    | exact Bool.noConfusion hidle
    | exact h.enter hpid (by simp) (by simp [Phase.leaves]) (by simp) (by simp) (by simp [Phase.passed]) (by simp)

theorem Inv.files (h : Inv s) (hserving : ∀ q, s.phase q ≠ .serving) (hwriting : ∀ q file, s.phase q ≠ .writing file)
    (link : Option Nat) (files : Nat → Bytes) (fresh : Nat) : Inv { s with link, files, fresh } := by
  refine ⟨h.pid,fun q hq => absurd hq (hserving q),h.unique,h.alone,fun q r file _ hr => absurd hr (hserving r),h.tested,
    h.passed,fun q file hq => absurd hq (hwriting q file)⟩

theorem Inv.serve (h : Inv s) (ho : Orderly s) {file : Nat} (hp : s.phase p = .writing file) :
    Inv (advance s p) := by
  obtain ⟨hlink,hempty⟩ := h.written p file hp
  have hnone : ∀ q, s.phase q ≠ .serving := fun q => h.passed p q (by rw [hp]; rfl)
  have hstarts : (s.phase p).starts := by rw [hp]; rfl
  have hadvance : advance s p = { s with files := Function.update s.files file (Decimal.digits p) }.enter p .serving := by
    simp [advance,hp,hempty,overwrite]
  rw [hadvance]
  generalize hs' : ({ s with files := Function.update s.files file (Decimal.digits p) } : State).enter p .serving = s'
  have hsame : s'.phase p = .serving := by rw [← hs']; exact Function.update_self ..
  have hother : ∀ q, q ≠ p → s'.phase q = s.phase q := fun q hq => by rw [← hs']; exact Function.update_of_ne hq _ _
  have hserves : ∀ q, s'.phase q = .serving → q = p := by
    intro q hq
    by_contra hqp
    exact hnone q ((hother q hqp).symm.trans hq)
  -- No other process is on its way to serve, or leaves.
  have hquiet : ∀ q, (s'.phase q).starts = false := by
    intro q
    by_cases hqp : q = p
    · subst q
      rw [hsame]
      rfl
    · rw [hother q hqp]
      by_contra hq
      exact hqp (ho.starts q p (by simpa using hq) hstarts)
  have hnamed : s'.link = some file ∧ s'.files file = Decimal.digits p := by
    rw [← hs']
    exact ⟨hlink,Function.update_self ..⟩
  refine ⟨?_,?_,?_,?_,?_,?_,?_,?_⟩
  · intro q hq
    by_cases hqp : q = p
    · subst q
      exact h.pid p (by rw [hp]; simp)
    · exact h.pid q (hother q hqp ▸ hq)
  · intro q hq
    rw [hserves q hq]
    exact ⟨file,hnamed⟩
  · exact fun q r hq hr => (hserves q hq).trans (hserves r hr).symm
  · intro q r hq hr
    by_cases hrp : r = p
    · subst r
      rw [hsame] at hr
      cases hr
    · exact ho.leaves p r file hp (hother r hrp ▸ hr)
  · intro q r file hq
    have hno := hquiet q
    rw [hq] at hno
    cases hno
  · intro q r pid hq
    have hno := hquiet q
    rw [hq] at hno
    cases hno
  · intro q r hq
    have hno := hquiet q
    rw [Phase.starts_of_passed hq] at hno
    cases hno
  · intro q file hq
    have hno := hquiet q
    rw [hq] at hno
    cases hno

def Free (s : State) : Prop := (∀ q, s.phase q ≠ .serving) ∧ ∀ q file, s.phase q ≠ .writing file

theorem Inv.free_passed (h : Inv s) (ho : Orderly s) (hp : (s.phase p).passed = true)
    (hnot : ∀ file, s.phase p ≠ .writing file) : Free s := by
  refine ⟨fun q => h.passed p q hp,fun q file hq => ?_⟩
  have hqp := ho.starts q p (by rw [hq]; rfl) (Phase.starts_of_passed hp)
  exact hnot file (hqp ▸ hq)

theorem Inv.free_leaves (h : Inv s) (ho : Orderly s) (hp : (s.phase p).leaves = true) : Free s :=
  ⟨fun q hq => h.alone q p hq hp,fun q file hq => ho.leaves q p file hq hp⟩

theorem Inv.check (h : Inv s) (hp : s.phase p = .checking) : Inv (advance s p) := by
  have hpid := h.pid p (by simp [hp])
  simp only [advance,hp]
  cases hlink : s.link with
  | some file => exact h.idle (fun _ => hpid) rfl
  | none =>
    refine h.pass (fun _ => hpid) (by simp) (fun q _ hq => ?_) (by simp)
    obtain ⟨file,hfile,-⟩ := h.named q hq
    rw [hlink] at hfile
    cases hfile

theorem Inv.opens (h : Inv s) (hp : s.phase p = .opening) : Inv (advance s p) := by
  have hpid := h.pid p (by simp [hp])
  simp only [advance,hp]
  refine h.enter (fun _ => hpid) (by simp) (by simp [Phase.leaves]) ?_ (by simp) (by simp [Phase.passed]) (by simp)
  intro q file hfile _ _
  exact (Phase.reading.inj hfile).symm

theorem Inv.read (h : Inv s) {file : Option Nat} (hp : s.phase p = .reading file) : Inv (advance s p) := by
  have hpid := h.pid p (by simp [hp])
  simp only [advance,hp]
  refine h.enter (fun _ => hpid) (by simp) (by simp [Phase.leaves]) (by simp) ?_ (by simp [Phase.passed]) (by simp)
  intro q pid hread _ hq
  obtain ⟨f,hlink,hcontent⟩ := h.named q hq
  have hlt := (h.pid q (by simp [hq])).2
  have hfile := h.opened p q file hp hq
  have hpid := Phase.testing.inj hread
  rw [hfile,hlink,Option.elim_some,hcontent,extractPid_digits (by omega)] at hpid
  rw [← hpid,toNat_pid hlt]

theorem Inv.test (h : Inv s) {pid : UInt64} (hp : s.phase p = .testing pid) : Inv (advance s p) := by
  have hpid := h.pid p (by simp [hp])
  simp only [advance,hp]
  split
  · exact h.idle (fun _ => hpid) rfl
  · rename_i hdead
    refine h.pass (fun _ => hpid) (by simp) (fun q _ hq => hdead ?_) (by simp)
    obtain ⟨hpos,hlt⟩ := h.pid q (by simp [hq])
    have hnat := h.tested p q pid hp hq
    have hread : pid = UInt64.ofNat q := by rw [← hnat,UInt64.ofNat_toNat]
    subst hread
    refine ⟨fun hzero => ?_,isProcessAlive_of hpos hlt (by simp [hq])⟩
    rw [hzero,UInt64.toNat_zero] at hnat
    omega

theorem Inv.remove (h : Inv s) (hfree : Free s) {phase : Phase} (hpid : phase ≠ .gone → 0 < p ∧ p < 2^31)
    (hserving : phase ≠ .serving) (hwriting : ∀ file, phase ≠ .writing file) : Inv (s.removeLock.enter p phase) := by
  have hremoved : Inv s.removeLock := h.files hfree.1 hfree.2 none s.files s.fresh
  exact hremoved.pass hpid hserving (fun q _ => hfree.1 q) fun file hfile => absurd hfile (hwriting file)

theorem Inv.create (h : Inv s) (hfree : Free s) (hp : s.phase p = .creating) : Inv (advance s p) := by
  have hpid := h.pid p (by simp [hp])
  have hopen : ∀ file fresh, Inv ({ s with link := some file, files := Function.update s.files file [], fresh }.enter p
      (.writing file)) := by
    intro file fresh
    refine (h.files hfree.1 hfree.2 (some file) (Function.update s.files file []) fresh).pass (fun _ => hpid) (by simp)
      (fun q _ => hfree.1 q) fun f hf => ?_
    rw [← Phase.writing.inj hf]
    exact ⟨rfl,Function.update_self ..⟩
  simp only [advance,hp]
  cases hlink : s.link with
  | some file => exact hopen file s.fresh
  | none => exact hopen s.fresh (s.fresh+1)

theorem inv_advance (h : Inv s) (ho : Orderly s) (p : Nat) : Inv (advance s p) := by
  cases hp : s.phase p with
  | checking => exact h.check hp
  | opening => exact h.opens hp
  | reading file => exact h.read hp
  | testing pid => exact h.test hp
  | refused =>
    simp only [advance,hp]
    exact h.idle (by simp) rfl
  | removing =>
    simp only [advance,hp]
    exact h.remove (h.free_passed (p:=p) ho (by rw [hp]; rfl) (by simp [hp])) (fun _ => h.pid p (by simp [hp])) (by simp)
      (by simp)
  | creating => exact h.create (h.free_passed (p:=p) ho (by rw [hp]; rfl) (by simp [hp])) hp
  | writing file => exact h.serve ho hp
  | serving | gone =>
    simp only [advance,hp]
    exact h
  | stopping =>
    simp only [advance,hp]
    exact h.remove (h.free_leaves (p:=p) ho (by rw [hp]; rfl)) (fun _ => h.pid p (by simp [hp])) (by simp) (by simp)
  | leaving =>
    simp only [advance,hp]
    exact h.remove (h.free_leaves (p:=p) ho (by rw [hp]; rfl)) (by simp) (by simp) (by simp)

end

theorem inv_step {s s' : State} {e : Event} (h : Inv s) (ho : Orderly s) (hs : step s e = some s') : Inv s' := by
  cases e with
  | launch p =>
    simp only [step,Option.ite_none_right_eq_some,Option.some.injEq] at hs
    obtain ⟨⟨hpos,hlt,-,-⟩,rfl⟩ := hs
    exact h.idle (fun _ => ⟨hpos,hlt⟩) rfl
  | advance p =>
    cases hs
    exact inv_advance h ho p
  | finish p =>
    simp only [step,Option.ite_none_right_eq_some,Option.some.injEq] at hs
    obtain ⟨hp,rfl⟩ := hs
    have hpid := h.pid p (by rw [hp]; simp)
    exact h.pass (fun _ => hpid) (by simp) (fun q hq hqs => hq (h.unique q p hqs hp)) (by simp)
  | signal p =>
    simp only [step,Option.ite_none_right_eq_some,Option.some.injEq] at hs
    obtain ⟨hp,rfl⟩ := hs
    have hpid : 0 < p ∧ p < 2^31 := h.pid p fun hgone => by simp [hgone] at hp
    refine h.pass (fun _ => hpid) (by simp) (fun q hq hqs => ?_) (by simp)
    rcases hp with hp | hp
    · exact hq (h.unique q p hqs hp)
    · exact h.alone q p hqs hp
  | crash p =>
    cases hs
    exact h.idle (by simp) rfl
  | outside others =>
    cases hs
    exact ⟨h.pid,h.named,h.unique,h.alone,h.opened,h.tested,h.passed,h.written⟩

theorem Initial.inv {s : State} (h : Initial s) : Inv s := by
  refine ⟨?_,?_,?_,?_,?_,?_,?_,?_⟩ <;> intro p <;> simp [h p]

theorem Initial.orderly {s : State} (h : Initial s) : Orderly s := by
  refine ⟨fun p q => ?_,fun p q file => ?_⟩
  · simp [h p]
  · simp [h p]

theorem inv_reachable {s₀ s : State} (h₀ : Initial s₀) (h : Relation.ReflTransGen OrderlyStep s₀ s) : Inv s ∧ Orderly s := by
  induction h with
  | refl => exact ⟨h₀.inv,h₀.orderly⟩
  | tail _ hs ih =>
    obtain ⟨⟨e,he⟩,ho⟩ := hs
    exact ⟨inv_step ih.1 ih.2 he,ho⟩

/-- As long as no start-up runs into another one or into an exit, one server at most is there, the
lock file names it, and no other process goes on to be one. -/
theorem exclusive {s₀ s : State} (h₀ : Initial s₀) (h : Relation.ReflTransGen OrderlyStep s₀ s) :
    (∀ p q, s.phase p = .serving → s.phase q = .serving → p = q) ∧
    ∀ p, s.phase p = .serving → (∃ file, s.link = some file ∧ s.files file = Decimal.digits p) ∧
      ∀ q, (s.phase q).passed = false := by
  obtain ⟨hi,-⟩ := inv_reachable h₀ h
  refine ⟨hi.unique,fun p hp => ⟨hi.named p hp,fun q => ?_⟩⟩
  by_contra hq
  exact hi.passed q p (by simpa using hq) hp

theorem advance_phase (s : State) {p q : Nat} (hq : q ≠ p) : (advance s p).phase q = s.phase q := by
  cases hp : s.phase p <;> simp only [advance,hp,State.enter,State.removeLock]
  case creating => cases s.link <;> exact Function.update_of_ne hq _ _
  all_goals first | rfl | exact Function.update_of_ne hq _ _

section

variable {s : State} {p : Nat}

def Alone (s : State) (p : Nat) : Prop := ∀ q, q ≠ p → (s.phase q).starts = false ∧ (s.phase q).leaves = false

theorem Alone.orderly (h : Alone s p) : Orderly s := by
  have hstarts : ∀ q, (s.phase q).starts → q = p := fun q hq => by
    by_contra hne
    rw [(h q hne).1] at hq
    cases hq
  refine ⟨fun q r hq hr => (hstarts q hq).trans (hstarts r hr).symm,fun q r file hq hr => ?_⟩
  have hqp : q = p := hstarts q (by rw [hq]; rfl)
  by_cases hrp : r = p
  · rw [hrp,← hqp,hq] at hr
    cases hr
  · rw [(h r hrp).2] at hr
    cases hr

theorem Alone.advances (h : Alone s p) (n : Nat) :
    ∃ s', run s (List.replicate n (.advance p)) = some s' ∧ Relation.ReflTransGen OrderlyStep s s' ∧
      ∀ q, q ≠ p → s'.phase q = s.phase q := by
  induction n generalizing s with
  | zero => exact ⟨s,rfl,.refl,fun _ _ => rfl⟩
  | succ n ih =>
    have hnext : Alone (advance s p) p := fun q hq => by rw [advance_phase s hq]; exact h q hq
    obtain ⟨s',hrun,hsteps,hothers⟩ := ih hnext
    exact ⟨s',hrun,.head ⟨⟨.advance p,rfl⟩,hnext.orderly⟩ hsteps,fun q hq => (hothers q hq).trans (advance_phase s hq)⟩

theorem Alone.startup (h : Alone s p) (hlaunch : step s (.launch p) = some (s.enter p .checking)) (n : Nat) :
    ∃ s', run s (.launch p :: List.replicate n (.advance p)) = some s' ∧ Relation.ReflTransGen OrderlyStep s s' ∧
      ∀ q, q ≠ p → s'.phase q = s.phase q := by
  have hsame : ∀ q, q ≠ p → (s.enter p .checking).phase q = s.phase q := fun q hq => Function.update_of_ne hq _ _
  have hnext : Alone (s.enter p .checking) p := fun q hq => by rw [hsame q hq]; exact h q hq
  obtain ⟨s',hrun,hsteps,hothers⟩ := hnext.advances n
  refine ⟨s',?_,.head ⟨⟨.launch p,hlaunch⟩,hnext.orderly⟩ hsteps,fun q hq => (hothers q hq).trans (hsame q hq)⟩
  rw [run,hlaunch,Option.bind_some,hrun]

end

/-- The first process on a machine becomes a server, and the second one is refused. -/
theorem exclusive_first :
    let s₀ : State := { phase := fun _ => .gone, link := none, files := fun _ => [], fresh := 0, others := fun _ => false }
    ∃ s, Relation.ReflTransGen OrderlyStep s₀ s ∧ s.phase 7 = .serving ∧ s.phase 8 = .refused ∧
      (∀ p q, s.phase p = .serving → s.phase q = .serving → p = q) ∧
      ∃ file, s.link = some file ∧ s.files file = Decimal.digits 7 := by
  intro s₀
  have h₀ : Initial s₀ := fun _ => rfl
  have hfirst : Alone s₀ 7 := fun q _ => ⟨rfl,rfl⟩
  obtain ⟨s₁,hrun₁,hsteps₁,hothers₁⟩ := hfirst.startup rfl 3
  have hserving : s₁.phase 7 = .serving := by cases hrun₁; rfl
  have hsecond : Alone s₁ 8 := by
    intro q _
    by_cases hq : q = 7
    · subst q
      rw [hserving]
      exact ⟨rfl,rfl⟩
    · rw [hothers₁ q hq]
      exact ⟨rfl,rfl⟩
  obtain ⟨s₂,hrun₂,hsteps₂,hothers₂⟩ := hsecond.startup (by cases hrun₁; rfl) 4
  have hrefused : s₂.phase 8 = .refused := by
    cases hrun₁
    cases hrun₂
    decide +kernel
  have hsteps := hsteps₁.trans hsteps₂
  obtain ⟨hunique,hnamed⟩ := exclusive h₀ hsteps
  have hserves := (hothers₂ 7 (by decide)).trans hserving
  exact ⟨s₂,hsteps,hserves,hrefused,hunique,(hnamed 7 hserves).1⟩

/-- The pid that a start-up finds, which is zero where there is no lock file. -/
def State.named (s : State) : UInt64 := s.link.elim 0 fun file => extractPid (s.files file)

theorem isProcessAlive_enter {s : State} {p : Nat} (hpos : 0 < p) {phase : Phase}
    (hphase : phase ≠ .gone) (pid : UInt64) :
    (s.enter p phase).isProcessAlive pid = true ↔ pid.toUInt32.toInt32.toInt = p ∨ s.isProcessAlive pid = true := by
  simp only [State.isProcessAlive,kill_iff,State.enter]
  generalize pid.toUInt32.toInt32.toInt = n
  by_cases hn : n = p
  · subst n
    simp [hphase,hpos]
  · have hne : 0 < n → n.toNat ≠ p := by omega
    constructor
    · rintro (⟨h,hother⟩ | h)
      · rw [Function.update_of_ne (hne h)] at hother
        exact Or.inr (Or.inl ⟨h,hother⟩)
      · exact Or.inr (Or.inr h)
    · rintro (h | ⟨h,hother⟩ | h)
      · exact absurd h hn
      · exact Or.inl ⟨h,by rwa [Function.update_of_ne (hne h)]⟩
      · exact Or.inr h

@[simp] theorem enter_enter (s : State) (p : Nat) (a b : Phase) : (s.enter p a).enter p b = s.enter p b := by
  simp [State.enter]

@[simp] theorem enter_phase (s : State) (p : Nat) (a : Phase) : (s.enter p a).phase p = a := by
  simp [State.enter]

theorem enter_phase_of_ne (s : State) {p q : Nat} (hq : q ≠ p) (a : Phase) : (s.enter p a).phase q = s.phase q :=
  Function.update_of_ne hq _ _

theorem advance_checking (s : State) (p : Nat) :
    advance (s.enter p .checking) p = s.enter p (if s.link.isSome then .opening else .creating) := by
  cases hlink : s.link <;> simp [advance,State.enter,hlink]

theorem advance_opening (s : State) (p : Nat) : advance (s.enter p .opening) p = s.enter p (.reading s.link) := by
  simp [advance,State.enter]

theorem advance_reading (s : State) (p : Nat) (file : Option Nat) :
    advance (s.enter p (.reading file)) p = s.enter p (.testing (extractPid (file.elim [] s.files))) := by
  simp [advance,State.enter]

theorem advance_testing (s : State) (p : Nat) (pid : UInt64) :
    advance (s.enter p (.testing pid)) p =
      s.enter p (if pid ≠ 0 ∧ (s.enter p (.testing pid)).isProcessAlive pid then .refused else .removing) := by
  simp [advance]

theorem advance_removing (s : State) (p : Nat) :
    advance (s.enter p .removing) p = s.removeLock.enter p .creating := by
  simp [advance,State.enter,State.removeLock]

def State.serve (s : State) (p : Nat) : State :=
  { s with link := some s.fresh, files := Function.update s.files s.fresh (Decimal.digits p), fresh := s.fresh+1 }.enter p
    .serving

theorem advance_creating {s : State} {p : Nat} (hlink : s.link = none) :
    advance (advance (s.enter p .creating) p) p = s.serve p := by
  simp [advance,State.enter,State.serve,hlink,overwrite]

theorem advance_serve (s : State) (p : Nat) : advance (s.serve p) p = s.serve p := by
  simp [advance,State.serve]

/-- A start-up on its own, whatever is in the lock file: it is refused if the pid in there is that of
a process, or its own by the low 32 bits, and then the lock stays as it is; else it ends in a server
that the lock names. -/
theorem startup_alone {s : State} {p : Nat} (hpos : 0 < p) (hlt : p < 2^31) (hgone : s.phase p = .gone)
    (hothers : s.others p = false) :
    if s.named ≠ 0 ∧ (s.named.toUInt32.toInt32.toInt = p ∨ s.isProcessAlive s.named = true) then
      run s (.launch p :: List.replicate 4 (.advance p)) = some (s.enter p .refused)
    else run s (.launch p :: List.replicate 7 (.advance p)) = some (s.serve p) := by
  have hlaunch : ∀ es, run s (.launch p :: es) = run (s.enter p .checking) es := fun es => by
    rw [run,step,if_pos ⟨hpos,hlt,hgone,hothers⟩,Option.bind_some]
  have hadvance : ∀ (t : State) es, run t (.advance p :: es) = run (advance t p) es := fun _ _ => rfl
  simp only [hlaunch,List.replicate_succ,List.replicate_zero,hadvance,advance_checking]
  cases hlink : s.link with
  | none =>
    have hnamed : s.named = 0 := by simp [State.named,hlink]
    simp [hnamed,advance_creating hlink,advance_serve,run]
  | some file =>
    have hnamed : extractPid (s.files file) = s.named := by simp [State.named,hlink]
    have halive := isProcessAlive_enter (s:=s) hpos (show Phase.testing s.named ≠ .gone by simp) s.named
    simp only [Option.isSome_some,if_true,advance_opening,hlink,advance_reading,Option.elim_some,hnamed,advance_testing,
      halive]
    split
    · rfl
    · have hfree : s.removeLock.link = none := rfl
      have hsame : s.removeLock.serve p = s.serve p := rfl
      simp [advance_removing,advance_creating hfree,hsame,run]

theorem startup_alone_recycled :
    let s : State := { phase := fun _ => .gone, link := some 0, files := fun _ => Decimal.digits 7, fresh := 1,
                       others := fun _ => false }
    run s (.launch 7 :: List.replicate 4 (.advance 7)) = some (s.enter 7 .refused) := by
  intro s
  have hnamed : s.named = 7 := extractPid_digits (p:=7) (by decide)
  have h := startup_alone (s:=s) (p:=7) (by decide) (by decide) rfl rfl
  rw [hnamed] at h
  rwa [if_pos ⟨by decide,Or.inl (by decide)⟩] at h

/-- Only start-ups are kept apart. -/
def ApartStep (s s' : State) : Prop :=
  (∃ e, step s e = some s') ∧ ∀ p q, (s'.phase p).starts → (s'.phase q).starts → p = q

def Quiet (s : State) (p : Nat) : Prop := ∀ q, q ≠ p → (s.phase q).starts = false

theorem Quiet.apart {s s' : State} {p : Nat} (h : Quiet s p) {e : Event} (he : step s e = some s')
    (hothers : ∀ q, q ≠ p → s'.phase q = s.phase q) : ApartStep s s' ∧ Quiet s' p := by
  have hquiet : Quiet s' p := fun q hq => by rw [hothers q hq]; exact h q hq
  refine ⟨⟨⟨e,he⟩,fun q r hq hr => ?_⟩,hquiet⟩
  have hmust : ∀ a, (s'.phase a).starts → a = p := fun a ha => by
    by_contra hne
    rw [hquiet a hne] at ha
    cases ha
  exact (hmust q hq).trans (hmust r hr).symm

theorem apart_startup {s : State} {p : Nat} (hlink : s.link = none) (hpos : 0 < p) (hlt : p < 2^31)
    (hgone : s.phase p = .gone) (hothers : s.others p = false) (hquiet : Quiet s p) :
    Relation.ReflTransGen ApartStep s (s.serve p) := by
  have hlaunch : step s (.launch p) = some (s.enter p .checking) := if_pos ⟨hpos,hlt,hgone,hothers⟩
  obtain ⟨h1,hquiet⟩ := hquiet.apart hlaunch fun q hq => Function.update_of_ne hq _ _
  obtain ⟨h2,hquiet⟩ := hquiet.apart (e:=.advance p) rfl fun q hq => advance_phase _ hq
  obtain ⟨h3,hquiet⟩ := hquiet.apart (e:=.advance p) rfl fun q hq => advance_phase _ hq
  obtain ⟨h4,-⟩ := hquiet.apart (e:=.advance p) rfl fun q hq => advance_phase _ hq
  rw [advance_checking,hlink] at h2 h3 h4
  rw [show (if (none : Option Nat).isSome = true then Phase.opening else Phase.creating) = .creating from rfl] at h2 h3 h4
  rw [advance_creating hlink] at h4
  exact ((Relation.ReflTransGen.single h1).tail h2).tail h3 |>.tail h4

theorem apart_still {s s' : State} {e : Event} (he : step s e = some s')
    (hstill : ∀ p, (s'.phase p).starts = false) : ApartStep s s' :=
  ⟨⟨e,he⟩,fun p q hp => by rw [hstill p] at hp; cases hp⟩

theorem starts_enter {s : State} (h : ∀ p, (s.phase p).starts = false) (p : Nat) {phase : Phase}
    (hphase : phase.starts = false) (q : Nat) : ((s.enter p phase).phase q).starts = false := by
  by_cases hq : q = p
  · subst q
    rw [enter_phase]
    exact hphase
  · rw [enter_phase_of_ne s hq]
    exact h q

/-- To keep the start-ups apart is not enough. A server that stops removes the lock file twice, and
the second time it may be that of a server that has started in between: another one starts beside it. -/
theorem second_removal {s₀ : State} (h₀ : Initial s₀) (hlink : s₀.link = none) {p q r : Nat} (hpq : p ≠ q) (hpr : p ≠ r)
    (hqr : q ≠ r) (hvalid : ∀ a ∈ [p,q,r], 0 < a ∧ a < 2^31 ∧ s₀.others a = false) :
    ∃ u s t, (Relation.ReflTransGen ApartStep s₀ u ∧ u.phase p = .stopping) ∧
      (ApartStep u (advance u p) ∧ Relation.ReflTransGen ApartStep (advance u p) s) ∧
      (s.phase p = .leaving ∧ s.phase q = .serving ∧ ∃ file, s.link = some file ∧ s.files file = Decimal.digits q) ∧
      (ApartStep s (advance s p) ∧ (advance s p).link = none ∧ (advance s p).phase q = .serving) ∧
      Relation.ReflTransGen ApartStep (advance s p) t ∧ t.phase q = .serving ∧ t.phase r = .serving := by
  obtain ⟨hp0,hp1,hp2⟩ := hvalid p (by simp)
  obtain ⟨hq0,hq1,hq2⟩ := hvalid q (by simp)
  obtain ⟨hr0,hr1,hr2⟩ := hvalid r (by simp)
  have hnone : ∀ a, (s₀.phase a).starts = false := fun a => by rw [h₀ a]; rfl
  have h1 := apart_startup hlink hp0 hp1 (h₀ p) hp2 fun a _ => hnone a
  have hserve : ∀ a, ((s₀.serve p).phase a).starts = false := starts_enter hnone p rfl
  -- The first server stops, and removes its lock file.
  have hstopping : ∀ a, (((s₀.serve p).enter p .stopping).phase a).starts = false := starts_enter hserve p rfl
  have h2 := apart_still (e:=.finish p) (if_pos (by simp [State.serve])) hstopping
  let s₃ := ((s₀.serve p).enter p .stopping).removeLock.enter p .leaving
  have hleaving : ∀ a, (s₃.phase a).starts = false := starts_enter hstopping p rfl
  have hfirst : advance ((s₀.serve p).enter p .stopping) p = s₃ := by simp [advance,s₃]
  have h3 : ApartStep ((s₀.serve p).enter p .stopping) s₃ := apart_still (e:=.advance p) (by rw [step,hfirst]) hleaving
  -- The second one finds none, and writes its own, which the first then removes.
  have hq : s₃.phase q = .gone := by simp [s₃,State.enter,State.removeLock,State.serve,Function.update_of_ne hpq.symm,h₀ q]
  have h4 := apart_startup (s:=s₃) rfl hq0 hq1 hq hq2 fun a _ => hleaving a
  have hserve : ∀ a, ((s₃.serve q).phase a).starts = false := starts_enter hleaving q rfl
  have hp : (s₃.serve q).phase p = .leaving := by simp [State.serve,State.enter,Function.update_of_ne hpq,s₃]
  have hsecond : advance (s₃.serve q) p = (s₃.serve q).removeLock.enter p .gone := by simp [advance,hp]
  have hgone : ∀ a, ((advance (s₃.serve q) p).phase a).starts = false := by
    rw [hsecond]
    exact starts_enter hserve p rfl
  have h5 : ApartStep (s₃.serve q) (advance (s₃.serve q) p) := apart_still (e:=.advance p) rfl hgone
  have hserving : (advance (s₃.serve q) p).phase q = .serving := by
    rw [advance_phase _ hpq.symm]
    exact enter_phase ..
  have hr : (advance (s₃.serve q) p).phase r = .gone := by
    rw [advance_phase _ hpr.symm]
    simp [s₃,State.enter,State.removeLock,State.serve,Function.update_of_ne hpr.symm,Function.update_of_ne hqr.symm,h₀ r]
  have hfree : (advance (s₃.serve q) p).link = none := by rw [hsecond]; rfl
  have hothers : (advance (s₃.serve q) p).others r = false := by rw [hsecond]; exact hr2
  have h6 := apart_startup hfree hr0 hr1 hr hothers fun a _ => hgone a
  refine ⟨_,s₃.serve q,_,⟨h1.tail h2,enter_phase ..⟩,⟨hfirst ▸ h3,hfirst ▸ h4⟩,
    ⟨hp,enter_phase ..,_,rfl,Function.update_self ..⟩,⟨h5,hfree,hserving⟩,h6,?_,enter_phase ..⟩
  exact (enter_phase_of_ne _ hqr _).trans hserving

theorem second_removal_three :
    let s₀ : State := { phase := fun _ => .gone, link := none, files := fun _ => [], fresh := 0, others := fun _ => false }
    ∃ u s t, (Relation.ReflTransGen ApartStep s₀ u ∧ u.phase 7 = .stopping) ∧
      (ApartStep u (advance u 7) ∧ Relation.ReflTransGen ApartStep (advance u 7) s) ∧
      (s.phase 7 = .leaving ∧ s.phase 8 = .serving ∧ ∃ file, s.link = some file ∧ s.files file = Decimal.digits 8) ∧
      (ApartStep s (advance s 7) ∧ (advance s 7).link = none ∧ (advance s 7).phase 8 = .serving) ∧
      Relation.ReflTransGen ApartStep (advance s 7) t ∧ t.phase 8 = .serving ∧ t.phase 9 = .serving := by
  intro s₀
  have hinitial : Initial s₀ := fun _ => rfl
  refine second_removal hinitial rfl (by decide) (by decide) (by decide) fun a ha => ?_
  simp only [List.mem_cons,List.not_mem_nil,or_false] at ha
  rcases ha with rfl | rfl | rfl <;> exact ⟨by decide,by decide,rfl⟩

end CyrexMC.LockFile
