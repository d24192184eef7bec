import CyrexMC.Util.ServerProperties
set_option autoImplicit false

namespace CyrexMC
open Lines Decimal

theorem stoi_eq_ok {val : Bytes} {n : Int} : stoi val = .ok n ↔ number? val = some n ∧ -2^31 ≤ n ∧ n < 2^31 := by
  rw [stoi,number?]
  cases signed? val with
  | none => simp
  | some m =>
    rw [Option.map_some,Option.some.injEq]
    simp only
    constructor
    · intro h
      split at h
      · rename_i hrange
        cases h
        exact ⟨rfl,hrange⟩
      · cases h
    · rintro ⟨rfl,hrange⟩
      exact if_pos hrange

theorem stoul_eq_ok {val : Bytes} {m : Nat} :
    stoul val = .ok m ↔ ∃ n, number? val = some n ∧ n.natAbs < 2^64 ∧ (m : Int) = n%2^64 := by
  rw [stoul,number?]
  cases signed? val with
  | none => simp
  | some sm =>
    obtain ⟨negative,magnitude⟩ := sm
    have habs : (toInt (negative,magnitude)).natAbs = magnitude := by cases negative <;> simp [toInt]
    have hmod : magnitude < 2^64 →
        ((if negative then (2^64-magnitude)%2^64 else magnitude : Nat) : Int) = toInt (negative,magnitude)%2^64 := by
      intro hmagnitude
      cases negative
      · simp only [Bool.false_eq_true,if_false,toInt]
        omega
      · simp only [if_true,toInt]
        omega
    simp only [Option.map_some,Option.some.injEq,exists_eq_left',habs]
    constructor
    · intro h
      split at h
      · rename_i hmagnitude
        cases h
        exact ⟨hmagnitude,hmod hmagnitude⟩
      · cases h
    · rintro ⟨hmagnitude,hm⟩
      rw [if_pos hmagnitude]
      exact congrArg _ (Int.natCast_inj.mp ((hmod hmagnitude).trans hm.symm))

/-- A setting that is a number. What is read is the number written, modulo a power of two. -/
structure Numeric (s : Setting) (num : s.Value → Nat) (bits : Nat) : Prop where
  num_lt : ∀ v, num v < 2^bits
  read_ok : ∀ val v, s.read val = .ok v → ∃ n, number? val = some n ∧ (num v : Int) = n%2^bits

theorem Numeric.of_stoi {s : Setting} {num : s.Value → Nat} (hlt : ∀ v, num v < 2^16)
    (hread : ∀ val v, s.read val = .ok v → ∃ n, stoi val = .ok n ∧ num v = (UInt16.ofInt n).toNat) : Numeric s num 16 := by
  refine ⟨hlt,fun val v h => ?_⟩
  obtain ⟨n,hn,hv⟩ := hread val v h
  refine ⟨n,(stoi_eq_ok.mp hn).1,?_⟩
  rw [hv]
  simp only [UInt16.ofInt,UInt16.toNat_ofNat']
  omega

theorem of_map_ok {ε α β : Type} {m : Except ε α} {f : α → β} {b : β} (h : m.map f = .ok b) :
    ∃ a, m = .ok a ∧ b = f a := by
  cases m with
  | error e => cases h
  | ok a => exact ⟨a,rfl,(Except.ok.inj h).symm⟩

theorem numeric_port : Numeric .port UInt16.toNat 16 := by
  refine .of_stoi UInt16.toNat_lt fun val v h => ?_
  obtain ⟨n,hn,rfl⟩ := of_map_ok h
  exact ⟨n,hn,rfl⟩

theorem numeric_portIpv6 : Numeric .portIpv6 UInt16.toNat 16 := by
  refine .of_stoi UInt16.toNat_lt fun val v h => ?_
  obtain ⟨n,hn,rfl⟩ := of_map_ok h
  exact ⟨n,hn,rfl⟩

theorem numeric_maxPlayers : Numeric .maxPlayers UInt32.toNat 32 := by
  refine ⟨UInt32.toNat_lt,fun val v h => ?_⟩
  obtain ⟨m,hm,rfl⟩ := of_map_ok h
  obtain ⟨n,hn,-,hmod⟩ := stoul_eq_ok.mp hm
  refine ⟨n,hn,?_⟩
  rw [UInt32.toNat_ofNat']
  omega

def KeptNumber (lines : List Bytes) (key : Bytes) (default n : Nat) : Prop :=
  match lastValue key lines with
  | none => n = default
  | some val => number? val = some (n : Int)

def FitsField (lines : List Bytes) (key : Bytes) (bits : Nat) : Prop :=
  ∀ val, lastValue key lines = some val → ∃ n : Nat, number? val = some (n : Int) ∧ n < 2^bits

/-- What was read for a setting is what is written just where that fits. -/
theorem Numeric.kept_iff {s : Setting} {num : s.Value → Nat} {bits : Nat} (hs : Numeric s num bits)
    {lines : List Bytes} {old new : s.Value} (h : s.Gets old new (lastValue s.key lines)) :
    KeptNumber lines s.key (num old) (num new) ↔ FitsField lines s.key bits := by
  rw [KeptNumber,FitsField]
  cases hlast : lastValue s.key lines with
  | none =>
    rw [hlast] at h
    have hnew : new = old := h
    simp [hnew]
  | some val =>
    rw [hlast] at h
    obtain ⟨n,hn,hmod⟩ := hs.read_ok val new h
    have hlt := hs.num_lt new
    simp only
    constructor
    · rintro hkept val' hval'
      cases hval'
      exact ⟨num new,hkept,hlt⟩
    · intro hfits
      obtain ⟨m,hm,hlt⟩ := hfits val rfl
      have hnm : n = (m : Int) := Option.some.inj (hn.symm.trans hm)
      rw [hm,Option.some.injEq,hmod,hnm]
      exact (Int.emod_eq_of_lt (Int.natCast_nonneg m) (by exact_mod_cast hlt)).symm

structure NumbersKept (lines : List Bytes) (cfg : ServerProperties) : Prop where
  port : KeptNumber lines (ascii "server-port") 19132 cfg.port.toNat
  portIpv6 : KeptNumber lines (ascii "server-portv6") 19133 cfg.portIpv6.toNat
  maxPlayers : KeptNumber lines (ascii "max-players") 100 cfg.maxPlayers.toNat

structure NumbersFit (lines : List Bytes) : Prop where
  port : FitsField lines (ascii "server-port") 16
  portIpv6 : FitsField lines (ascii "server-portv6") 16
  maxPlayers : FitsField lines (ascii "max-players") 32

/-- A line for a number that is none, or that `stoi` (for a port) or `stoul` does not have a value for. -/
def Reported (line : Bytes) : Prop :=
  (∃ val, (valueOf (ascii "server-port") line = some val ∨ valueOf (ascii "server-portv6") line = some val) ∧
    ∀ n, number? val = some n → n < -2^31 ∨ 2^31 ≤ n) ∨
  ∃ val, valueOf (ascii "max-players") line = some val ∧ ∀ n, number? val = some n → 2^64 ≤ n.natAbs

theorem stoi_returns (val : Bytes) :
    (∃ n, stoi val = .ok n) ↔ ¬ ∀ n, number? val = some n → n < -2^31 ∨ 2^31 ≤ n := by
  simp only [stoi_eq_ok,not_forall,exists_prop,not_or,Int.not_lt,Int.not_le]

theorem stoul_returns (val : Bytes) : (∃ m, stoul val = .ok m) ↔ ¬ ∀ n, number? val = some n → 2^64 ≤ n.natAbs := by
  simp only [stoul_eq_ok]
  push Not
  constructor
  · rintro ⟨m,n,hn,habs,-⟩
    exact ⟨n,hn,habs⟩
  · rintro ⟨n,hn,habs⟩
    exact ⟨(n%2^64).toNat,n,hn,habs,by omega⟩

theorem map_returns {ε α β : Type} (m : Except ε α) (f : α → β) : (∃ b, m.map f = .ok b) ↔ ∃ a, m = .ok a := by
  cases m with
  | error e =>
    constructor
    · rintro ⟨b,h⟩
      cases h
    · rintro ⟨a,h⟩
      cases h
  | ok a => exact ⟨fun _ => ⟨a,rfl⟩,fun _ => ⟨f a,rfl⟩⟩

theorem readable_iff (line : Bytes) : Readable line ↔ ¬ Reported line := by
  have hport : ∀ val, (∃ v, Setting.port.read val = .ok v) ↔ ∃ n, stoi val = .ok n := fun val => map_returns _ _
  have hplayers : ∀ val, (∃ v, Setting.maxPlayers.read val = .ok v) ↔ ∃ n, stoul val = .ok n :=
    fun val => map_returns _ _
  constructor
  · rintro h (⟨val,hval | hval,hrange⟩ | ⟨val,hval,hrange⟩)
    · exact (stoi_returns val).mp ((hport val).mp (h .port val hval)) hrange
    · exact (stoi_returns val).mp ((hport val).mp (h .portIpv6 val hval)) hrange
    · exact (stoul_returns val).mp ((hplayers val).mp (h .maxPlayers val hval)) hrange
  · intro h s val hval
    cases s with
    | port => exact (hport val).mpr ((stoi_returns val).mpr fun hrange => h (Or.inl ⟨val,Or.inl hval,hrange⟩))
    | portIpv6 => exact (hport val).mpr ((stoi_returns val).mpr fun hrange => h (Or.inl ⟨val,Or.inr hval,hrange⟩))
    | maxPlayers => exact (hplayers val).mpr ((stoul_returns val).mpr fun hrange => h (Or.inr ⟨val,hval,hrange⟩))
    | serverName | motd | defaultGameMode | forceResources => exact ⟨_,rfl⟩

def PropertiesFile.lines : PropertiesFile → List Bytes
  | .missing _ => []
  | .unreadable => []
  | .text content => getLines content

namespace ServerProperties

theorem load_ok {file after : PropertiesFile} {cfg : ServerProperties} (h : load file = .ok (cfg,after)) (s : Setting) :
    s.Gets (s.get defaults) (s.get cfg) (lastValue s.key file.lines) := by
  cases file with
  | missing writable => cases writable <;> cases h <;> rfl
  | unreadable =>
    cases h
    rfl
  | text content => exact ((load_iff content cfg after).mp h).2.2 s

theorem load_returns (file : PropertiesFile) :
    (∃ cfg after, load file = .ok (cfg,after)) ↔ ∀ line ∈ file.lines, ¬ Reported line := by
  cases file with
  | missing writable =>
    refine ⟨fun _ line hline => absurd hline List.not_mem_nil,fun _ => ?_⟩
    cases writable
    · exact ⟨_,_,rfl⟩
    · exact ⟨_,_,rfl⟩
  | unreadable => exact ⟨fun _ line hline => absurd hline List.not_mem_nil,fun _ => ⟨_,_,rfl⟩⟩
  | text content =>
    simp only [PropertiesFile.lines,← readable_iff,← readLines_returns defaults,load]
    constructor
    · rintro ⟨cfg,after,h⟩
      cases hrun : (getLines content).foldlM readLine defaults with
      | error e =>
        rw [hrun] at h
        cases h
      | ok cfg' => exact ⟨cfg',rfl⟩
    · rintro ⟨cfg,hrun⟩
      exact ⟨cfg,.text content,by rw [hrun]; rfl⟩

theorem numbersKept_iff {file after : PropertiesFile} {cfg : ServerProperties} (h : load file = .ok (cfg,after)) :
    NumbersKept file.lines cfg ↔ NumbersFit file.lines := by
  have hport := numeric_port.kept_iff (load_ok h .port)
  have hportIpv6 := numeric_portIpv6.kept_iff (load_ok h .portIpv6)
  have hmaxPlayers := numeric_maxPlayers.kept_iff (load_ok h .maxPlayers)
  constructor
  · intro hkept
    exact ⟨hport.mp hkept.port,hportIpv6.mp hkept.portIpv6,hmaxPlayers.mp hkept.maxPlayers⟩
  · intro hfit
    exact ⟨hport.mpr hfit.port,hportIpv6.mpr hfit.portIpv6,hmaxPlayers.mpr hfit.maxPlayers⟩

/-- The numbers that come out of a file are the ones written in it just where these fit, or where one
of them is refused. -/
theorem load_numbers_iff (file : PropertiesFile) :
    (∀ cfg after, load file = .ok (cfg,after) → NumbersKept file.lines cfg) ↔
      (∃ line ∈ file.lines, Reported line) ∨ NumbersFit file.lines := by
  constructor
  · intro hkept
    by_cases hreported : ∃ line ∈ file.lines, Reported line
    · exact Or.inl hreported
    · have hnone : ∀ line ∈ file.lines, ¬ Reported line := fun line hline h => hreported ⟨line,hline,h⟩
      obtain ⟨cfg,after,h⟩ := (load_returns file).mpr hnone
      exact Or.inr ((numbersKept_iff h).mp (hkept cfg after h))
  · rintro (⟨line,hline,hreported⟩ | hfit) cfg after h
    · exact absurd hreported ((load_returns file).mp ⟨cfg,after,h⟩ line hline)
    · exact (numbersKept_iff h).mpr hfit

/-- The port 70000 comes out as 4464. -/
theorem port_70000_wraps :
    ¬ ∀ cfg after, load (.text (ascii "server-port=70000\n")) = .ok (cfg,after) →
      NumbersKept (PropertiesFile.text (ascii "server-port=70000\n")).lines cfg := by
  intro h
  have hload : load (.text (ascii "server-port=70000\n")) =
      .ok ({ defaults with port := 4464 },.text (ascii "server-port=70000\n")) := by decide
  have hport := (h _ _ hload).port
  have hwritten : number? (ascii "70000") = some 4464 := hport
  exact absurd hwritten (by decide)

end ServerProperties

end CyrexMC
