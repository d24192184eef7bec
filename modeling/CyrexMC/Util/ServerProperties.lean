import CyrexMC.ThirdParty
import CyrexMC.Lib.Numerals
import CyrexMC.Lib.Text
import Mathlib.Algebra.Group.Nat.Defs
set_option autoImplicit false

/-! `util/server_properties.cpp`, and `protocol/types/GameMode.hpp` behind it. -/

namespace CyrexMC
open Lines

inductive GameMode where
  | SURVIVAL
  | CREATIVE
  | ADVENTURE
  | SURVIVAL_VIEWER
  | CREATIVE_VIEWER
  | DEFAULT
  deriving DecidableEq, Repr

def toGameModeString : GameMode → Bytes
  | .SURVIVAL => ascii "Survival"
  | .CREATIVE => ascii "Creative"
  | .ADVENTURE => ascii "Adventure"
  | .SURVIVAL_VIEWER => ascii "Survival Viewer"
  | .CREATIVE_VIEWER => ascii "Creative Viewer"
  | .DEFAULT => ascii "Default"

def toupper (b : UInt8) : UInt8 := if 0x61 ≤ b ∧ b ≤ 0x7A then b-0x20 else b

def iequals (a b : Bytes) : Bool :=
  a.length == b.length && (a.zip b).all fun (x,y) => toupper x == toupper y

def parseGameMode (str : Bytes) : GameMode :=
  if iequals str (ascii "survival") || iequals str (ascii "s") then .SURVIVAL
  else if iequals str (ascii "creative") || iequals str (ascii "c") then .CREATIVE
  else if iequals str (ascii "adventure") || iequals str (ascii "a") then .ADVENTURE
  else if iequals str (ascii "survival_viewer") || iequals str (ascii "survival viewer") ||
      iequals str (ascii "spectator") || iequals str (ascii "spec") then .SURVIVAL_VIEWER
  else if iequals str (ascii "creative_viewer") || iequals str (ascii "creative viewer") then .CREATIVE_VIEWER
  else if iequals str (ascii "default") then .DEFAULT
  else .DEFAULT

theorem parseGameMode_toGameModeString (mode : GameMode) : parseGameMode (toGameModeString mode) = mode := by
  cases mode <;> decide

inductive NumberError where
  | invalidArgument
  | outOfRange
  deriving DecidableEq, Repr

def stoi (str : Bytes) : Except NumberError Int :=
  match Decimal.signed? str with
  | none => .error .invalidArgument
  | some n =>
    if -2^31 ≤ Decimal.toInt n ∧ Decimal.toInt n < 2^31 then .ok (Decimal.toInt n) else .error .outOfRange

/-- An `unsigned long` of 64 bits. A number with a minus sign is negated in that type. -/
def stoul (str : Bytes) : Except NumberError Nat :=
  match Decimal.signed? str with
  | none => .error .invalidArgument
  | some (negative,m) =>
    if m < 2^64 then .ok (if negative then (2^64-m)%2^64 else m) else .error .outOfRange

structure ServerProperties where
  port : UInt16
  portIpv6 : UInt16
  maxPlayers : UInt32
  serverName : Bytes
  motd : Bytes
  defaultGameMode : GameMode
  forceResources : Bool
  deriving DecidableEq, Repr

/-- What is at the path: nothing, with or without the leave to put a file there, a file that cannot
be opened, or a file. -/
inductive PropertiesFile where
  | missing : Bool → PropertiesFile
  | unreadable
  | text : Bytes → PropertiesFile
  deriving DecidableEq, Repr

namespace ServerProperties

def defaults : ServerProperties :=
  { port := 19132, portIpv6 := 19133, maxPlayers := 100, serverName := ascii "CyrexMC",
    motd := ascii "Cyrex MCBE Software", defaultGameMode := .SURVIVAL, forceResources := false }

def writeDefaults (cfg : ServerProperties) : Bytes :=
  ascii "server-port=" ++ toDecimal cfg.port.toNat ++ ascii "\n" ++
  ascii "server-portv6=" ++ toDecimal cfg.portIpv6.toNat ++ ascii "\n" ++
  ascii "max-players=" ++ toDecimal cfg.maxPlayers.toNat ++ ascii "\n" ++
  ascii "server-name=" ++ cfg.serverName ++ ascii "\n" ++
  ascii "motd=" ++ cfg.motd ++ ascii "\n" ++
  ascii "gamemode=" ++ toGameModeString cfg.defaultGameMode ++ ascii "\n" ++
  ascii "force-resources=" ++ toDecimal cfg.forceResources.toNat ++ ascii "\n"

def assign (cfg : ServerProperties) (key val : Bytes) : Except NumberError ServerProperties :=
  if key = ascii "server-port" then do
    let n ← stoi val
    pure { cfg with port := UInt16.ofInt n }
  else if key = ascii "server-portv6" then do
    let n ← stoi val
    pure { cfg with portIpv6 := UInt16.ofInt n }
  else if key = ascii "max-players" then do
    let n ← stoul val
    pure { cfg with maxPlayers := UInt32.ofNat n }
  else if key = ascii "server-name" then pure { cfg with serverName := val }
  else if key = ascii "motd" then pure { cfg with motd := val }
  else if key = ascii "gamemode" then pure { cfg with defaultGameMode := parseGameMode val }
  else if key = ascii "force-resources" then
    pure { cfg with forceResources := val == ascii "1" || val == ascii "true" || val == ascii "yes" }
  else pure cfg

def readLine (cfg : ServerProperties) (line : Bytes) : Except NumberError ServerProperties :=
  match setting? line with
  | none => pure cfg
  | some (key,val) => cfg.assign key val

/-- What `load` returns and what is at the path afterwards. -/
def load (file : PropertiesFile) : Except NumberError (ServerProperties × PropertiesFile) :=
  match file with
  | .missing false => pure (defaults,.missing false)
  | .missing true => pure (defaults,.text (writeDefaults defaults))
  | .unreadable => pure (defaults,.unreadable)
  | .text content => do
    let cfg ← (getLines content).foldlM readLine defaults
    pure (cfg,.text content)

end ServerProperties

inductive Setting where
  | port
  | portIpv6
  | maxPlayers
  | serverName
  | motd
  | defaultGameMode
  | forceResources
  deriving DecidableEq, Repr

namespace Setting

def all : List Setting := [port,portIpv6,maxPlayers,serverName,motd,defaultGameMode,forceResources]

def key : Setting → Bytes
  | port => ascii "server-port"
  | portIpv6 => ascii "server-portv6"
  | maxPlayers => ascii "max-players"
  | serverName => ascii "server-name"
  | motd => ascii "motd"
  | defaultGameMode => ascii "gamemode"
  | forceResources => ascii "force-resources"

def Value : Setting → Type
  | port | portIpv6 => UInt16
  | maxPlayers => UInt32
  | serverName | motd => Bytes
  | defaultGameMode => GameMode
  | forceResources => Bool

def get : (s : Setting) → ServerProperties → s.Value
  | port, cfg => cfg.port
  | portIpv6, cfg => cfg.portIpv6
  | maxPlayers, cfg => cfg.maxPlayers
  | serverName, cfg => cfg.serverName
  | motd, cfg => cfg.motd
  | defaultGameMode, cfg => cfg.defaultGameMode
  | forceResources, cfg => cfg.forceResources

def set : (s : Setting) → ServerProperties → s.Value → ServerProperties
  | port, cfg, v => { cfg with port := v }
  | portIpv6, cfg, v => { cfg with portIpv6 := v }
  | maxPlayers, cfg, v => { cfg with maxPlayers := v }
  | serverName, cfg, v => { cfg with serverName := v }
  | motd, cfg, v => { cfg with motd := v }
  | defaultGameMode, cfg, v => { cfg with defaultGameMode := v }
  | forceResources, cfg, v => { cfg with forceResources := v }

def read : (s : Setting) → Bytes → Except NumberError s.Value
  | port, val | portIpv6, val => (stoi val).map UInt16.ofInt
  | maxPlayers, val => (stoul val).map UInt32.ofNat
  | serverName, val | motd, val => .ok val
  | defaultGameMode, val => .ok (parseGameMode val)
  | forceResources, val => .ok (val == ascii "1" || val == ascii "true" || val == ascii "yes")

def write : (s : Setting) → s.Value → Bytes
  | port, v | portIpv6, v => toDecimal (UInt16.toNat v)
  | maxPlayers, v => toDecimal (UInt32.toNat v)
  | serverName, v | motd, v => v
  | defaultGameMode, v => toGameModeString v
  | forceResources, v => toDecimal (Bool.toNat v)

theorem mem_all (s : Setting) : s ∈ all := by cases s <;> decide

theorem key_ok (s : Setting) : Key s.key := by cases s <;> decide

theorem key_injective {s t : Setting} (h : s.key = t.key) : s = t := by
  have hall : ∀ s ∈ all, ∀ t ∈ all, s.key = t.key → s = t := by decide
  exact hall s s.mem_all t t.mem_all h

@[simp] theorem get_set (s : Setting) (cfg : ServerProperties) (v : s.Value) : s.get (s.set cfg v) = v := by
  cases s <;> rfl

theorem get_set_ne {s t : Setting} (h : s ≠ t) (cfg : ServerProperties) (v : t.Value) :
    s.get (t.set cfg v) = s.get cfg := by
  cases s <;> cases t <;> first | rfl | exact absurd rfl h

theorem get_ext {cfg cfg' : ServerProperties} (h : ∀ s : Setting, s.get cfg = s.get cfg') : cfg = cfg' := by
  cases cfg
  cases cfg'
  have hport := h port
  have hportIpv6 := h portIpv6
  have hmaxPlayers := h maxPlayers
  have hserverName := h serverName
  have hmotd := h motd
  have hdefaultGameMode := h defaultGameMode
  have hforceResources := h forceResources
  simp only [get] at *
  simp only [*]

end Setting

theorem toDecimal_natCast (n : Nat) : toDecimal (n : Int) = Decimal.digits n := by
  have htext : (toString (n : Int)).toList = Nat.toDigits 10 n := Nat.toList_repr
  rw [toDecimal,ascii,htext,Decimal.digits]

theorem stoi_toDecimal {n : Nat} (h : n < 2^31) : stoi (toDecimal n) = .ok (n : Int) := by
  have hrange : -2^31 ≤ (n : Int) ∧ (n : Int) < 2^31 := by omega
  rw [toDecimal_natCast,stoi,Decimal.signed?_digits]
  exact if_pos hrange

theorem stoul_toDecimal {n : Nat} (h : n < 2^64) : stoul (toDecimal n) = .ok n := by
  rw [toDecimal_natCast,stoul,Decimal.signed?_digits]
  exact if_pos h

theorem uint16_ofInt_natCast (v : UInt16) : UInt16.ofInt (v.toNat : Int) = v := by
  have hv := v.toNat_lt
  apply UInt16.toNat.inj
  simp only [UInt16.ofInt,UInt16.toNat_ofNat']
  omega

theorem Setting.read_write (s : Setting) (v : s.Value) : s.read (s.write v) = .ok v := by
  have hport : ∀ v : UInt16, (stoi (toDecimal v.toNat)).map UInt16.ofInt = .ok v := by
    intro v
    have hv := v.toNat_lt
    rw [stoi_toDecimal (by omega)]
    exact congrArg _ (uint16_ofInt_natCast v)
  cases s with
  | port => exact hport v
  | portIpv6 => exact hport v
  | maxPlayers =>
    have hv := UInt32.toNat_lt v
    simp only [read,write]
    rw [stoul_toDecimal (by omega)]
    exact congrArg _ (UInt32.ofNat_toNat (x := v))
  | serverName => rfl
  | motd => rfl
  | defaultGameMode => exact congrArg _ (parseGameMode_toGameModeString v)
  | forceResources =>
    have hflag : ∀ b : Bool, (toDecimal b.toNat == ascii "1" || toDecimal b.toNat == ascii "true" ||
        toDecimal b.toNat == ascii "yes") = b := by decide
    exact congrArg _ (hflag v)

namespace ServerProperties

theorem assign_key (cfg : ServerProperties) (s : Setting) (val : Bytes) :
    cfg.assign s.key val = (s.read val).map (s.set cfg) := by
  cases s with
  | port =>
    simp only [assign,Setting.key,Setting.read,if_true]
    cases stoi val <;> rfl
  | portIpv6 =>
    have hport : ascii "server-portv6" ≠ ascii "server-port" := by decide
    simp only [assign,Setting.key,Setting.read,if_neg hport,if_true]
    cases stoi val <;> rfl
  | maxPlayers =>
    have hport : ascii "max-players" ≠ ascii "server-port" := by decide
    have hportIpv6 : ascii "max-players" ≠ ascii "server-portv6" := by decide
    simp only [assign,Setting.key,Setting.read,if_neg hport,if_neg hportIpv6,if_true]
    cases stoul val <;> rfl
  | serverName | motd | defaultGameMode | forceResources =>
    rfl

theorem assign_other {key : Bytes} (h : ∀ s : Setting, s.key ≠ key) (cfg : ServerProperties) (val : Bytes) :
    cfg.assign key val = .ok cfg := by
  have hport : key ≠ ascii "server-port" := (h .port).symm
  have hportIpv6 : key ≠ ascii "server-portv6" := (h .portIpv6).symm
  have hmaxPlayers : key ≠ ascii "max-players" := (h .maxPlayers).symm
  have hserverName : key ≠ ascii "server-name" := (h .serverName).symm
  have hmotd : key ≠ ascii "motd" := (h .motd).symm
  have hgamemode : key ≠ ascii "gamemode" := (h .defaultGameMode).symm
  have hforce : key ≠ ascii "force-resources" := (h .forceResources).symm
  simp only [assign,if_neg hport,if_neg hportIpv6,if_neg hmaxPlayers,if_neg hserverName,if_neg hmotd,
    if_neg hgamemode,if_neg hforce]
  rfl

end ServerProperties

def Setting.Gets (s : Setting) (old new : s.Value) : Option Bytes → Prop
  | none => new = old
  | some val => s.read val = .ok new

theorem Setting.Gets.unique {s : Setting} {old new new' : s.Value} {val : Option Bytes} (h : s.Gets old new val)
    (h' : s.Gets old new' val) : new = new' := by
  cases val with
  | none => exact h.trans h'.symm
  | some val => exact Except.ok.inj (h.symm.trans h')

/-- A line whose value, if it has one, is not one that `stoi` or `stoul` throws on. -/
def Readable (line : Bytes) : Prop := ∀ s : Setting, ∀ val, valueOf s.key line = some val → ∃ v, s.read val = .ok v

def Ignored (line : Bytes) : Prop :=
  line = [] ∨ line.head? = some 0x23 ∨ equalsSign ∉ line ∨
    ∃ key val, setting? line = some (key,val) ∧ ∀ s : Setting, s.key ≠ key

theorem Ignored.valueOf {line : Bytes} (h : Ignored line) (s : Setting) : valueOf s.key line = none := by
  rcases h with hblank | hcomment | hplain | ⟨key,val,hkey,hne⟩
  · simp [Lines.valueOf,setting?,hblank]
  · simp [Lines.valueOf,setting?,hcomment]
  · have hpos : line.idxOf? equalsSign = none := List.idxOf?_eq_none_iff.mpr hplain
    simp [Lines.valueOf,setting?,hpos]
  · rw [Lines.valueOf,hkey,Option.bind_some,if_neg (hne s).symm]

namespace ServerProperties

theorem readLine_setting {s : Setting} {val line : Bytes} (h : valueOf s.key line = some val) (cfg : ServerProperties) :
    cfg.readLine line = (s.read val).map (s.set cfg) := by
  rw [readLine,valueOf_eq_some.mp h]
  exact assign_key cfg s val

theorem readLine_none {line : Bytes} (h : ∀ s : Setting, valueOf s.key line = none) (cfg : ServerProperties) :
    cfg.readLine line = .ok cfg := by
  rw [readLine]
  cases hline : setting? line with
  | none => rfl
  | some kv =>
    obtain ⟨key,val⟩ := kv
    refine assign_other (fun s hs => ?_) cfg val
    have hsome : valueOf s.key line = some val := valueOf_eq_some.mpr (hs ▸ hline)
    rw [h s] at hsome
    cases hsome

theorem setting_or_none (line : Bytes) :
    (∃ s : Setting, ∃ val, valueOf s.key line = some val) ∨ ∀ s : Setting, valueOf s.key line = none := by
  by_cases h : ∃ s : Setting, ∃ val, valueOf s.key line = some val
  · exact Or.inl h
  · refine Or.inr fun s => ?_
    cases hval : valueOf s.key line with
    | none => rfl
    | some val => exact absurd ⟨s,val,hval⟩ h

theorem readLine_ok {cfg cfg' : ServerProperties} {line : Bytes} (h : cfg.readLine line = .ok cfg') (s : Setting) :
    s.Gets (s.get cfg) (s.get cfg') (valueOf s.key line) := by
  rcases setting_or_none line with ⟨t,val,hval⟩ | hnone
  · rw [readLine_setting hval] at h
    cases hread : t.read val with
    | error e =>
      rw [hread] at h
      cases h
    | ok v =>
      rw [hread] at h
      have hset : t.set cfg v = cfg' := Except.ok.inj h
      rw [← hset]
      by_cases hs : s = t
      · subst hs
        rw [hval,Setting.get_set]
        exact hread
      · have hkey : s.key ≠ t.key := fun heq => hs (Setting.key_injective heq)
        rw [valueOf_other hval hkey,Setting.get_set_ne hs]
        rfl
  · rw [readLine_none hnone] at h
    rw [hnone s,Except.ok.inj h]
    rfl

theorem readLine_returns (cfg : ServerProperties) (line : Bytes) : (∃ cfg', cfg.readLine line = .ok cfg') ↔ Readable line := by
  rcases setting_or_none line with ⟨t,val,hval⟩ | hnone
  · rw [readLine_setting hval]
    constructor
    · rintro ⟨cfg',h⟩ s val' hval'
      cases hread : t.read val with
      | error e =>
        rw [hread] at h
        cases h
      | ok v =>
        by_cases hs : s.key = t.key
        · cases Setting.key_injective hs
          rw [hval] at hval'
          cases hval'
          exact ⟨v,hread⟩
        · rw [valueOf_other hval hs] at hval'
          cases hval'
    · intro h
      obtain ⟨v,hread⟩ := h t val hval
      exact ⟨t.set cfg v,by rw [hread]; rfl⟩
  · refine ⟨fun _ s val hval => ?_,fun _ => ⟨cfg,readLine_none hnone cfg⟩⟩
    rw [hnone s] at hval
    cases hval

theorem readLines_ok {cfg cfg' : ServerProperties} {lines : List Bytes} (h : lines.foldlM readLine cfg = .ok cfg')
    (s : Setting) : s.Gets (s.get cfg) (s.get cfg') (lastValue s.key lines) := by
  induction lines generalizing cfg with
  | nil => exact congrArg _ (Except.ok.inj h).symm
  | cons line lines ih =>
    rw [List.foldlM_cons] at h
    cases hline : cfg.readLine line with
    | error e =>
      rw [hline] at h
      cases h
    | ok mid =>
      rw [hline] at h
      have hfirst := readLine_ok hline s
      have hrest := ih h
      rw [lastValue]
      cases hlast : lastValue s.key lines with
      | none =>
        rw [hlast] at hrest
        rw [Option.none_or,show s.get cfg' = s.get mid from hrest]
        exact hfirst
      | some val =>
        rw [hlast] at hrest
        exact hrest

theorem readLines_returns (cfg : ServerProperties) (lines : List Bytes) :
    (∃ cfg', lines.foldlM readLine cfg = .ok cfg') ↔ ∀ line ∈ lines, Readable line := by
  induction lines generalizing cfg with
  | nil => exact ⟨fun _ line hline => absurd hline List.not_mem_nil,fun _ => ⟨cfg,rfl⟩⟩
  | cons line lines ih =>
    rw [List.foldlM_cons,List.forall_mem_cons,← readLine_returns cfg line]
    cases hline : cfg.readLine line with
    | error e =>
      refine ⟨?_,?_⟩
      · rintro ⟨cfg',h⟩
        cases h
      · rintro ⟨⟨cfg',h⟩,-⟩
        cases h
    | ok mid => exact ⟨fun h => ⟨⟨mid,rfl⟩,(ih mid).mp h⟩,fun h => (ih mid).mpr h.2⟩

/-- A file stands for the last value of each setting, and is left as it is. -/
theorem load_iff (content : Bytes) (cfg : ServerProperties) (file : PropertiesFile) :
    load (.text content) = .ok (cfg,file) ↔
      file = .text content ∧ (∀ line ∈ getLines content, Readable line) ∧
        ∀ s : Setting, s.Gets (s.get defaults) (s.get cfg) (lastValue s.key (getLines content)) := by
  constructor
  · intro h
    cases hrun : (getLines content).foldlM readLine defaults with
    | error e =>
      simp only [load,hrun] at h
      cases h
    | ok cfg' =>
      simp only [load,hrun] at h
      cases h
      exact ⟨rfl,(readLines_returns _ _).mp ⟨_,hrun⟩,readLines_ok hrun⟩
  · rintro ⟨rfl,hreadable,hgets⟩
    obtain ⟨cfg',hrun⟩ := (readLines_returns defaults _).mpr hreadable
    have hsame : cfg' = cfg := Setting.get_ext fun s => (readLines_ok hrun s).unique (hgets s)
    simp only [load,hrun,hsame]
    rfl

def line (cfg : ServerProperties) (s : Setting) : Bytes := settingLine (s.key,s.write (s.get cfg))

theorem writeDefaults_eq (cfg : ServerProperties) : writeDefaults cfg = unlines (Setting.all.map cfg.line) := by
  have hend : ascii "\n" = [newline] := by decide
  have hport : ascii "server-port=" = Setting.port.key ++ [equalsSign] := by decide
  have hportIpv6 : ascii "server-portv6=" = Setting.portIpv6.key ++ [equalsSign] := by decide
  have hmaxPlayers : ascii "max-players=" = Setting.maxPlayers.key ++ [equalsSign] := by decide
  have hserverName : ascii "server-name=" = Setting.serverName.key ++ [equalsSign] := by decide
  have hmotd : ascii "motd=" = Setting.motd.key ++ [equalsSign] := by decide
  have hgamemode : ascii "gamemode=" = Setting.defaultGameMode.key ++ [equalsSign] := by decide
  have hforce : ascii "force-resources=" = Setting.forceResources.key ++ [equalsSign] := by decide
  have hlines : writeDefaults cfg = unlines [
      settingLine (Setting.port.key,toDecimal cfg.port.toNat),
      settingLine (Setting.portIpv6.key,toDecimal cfg.portIpv6.toNat),
      settingLine (Setting.maxPlayers.key,toDecimal cfg.maxPlayers.toNat),
      settingLine (Setting.serverName.key,cfg.serverName),
      settingLine (Setting.motd.key,cfg.motd),
      settingLine (Setting.defaultGameMode.key,toGameModeString cfg.defaultGameMode),
      settingLine (Setting.forceResources.key,toDecimal cfg.forceResources.toNat)] := by
    unfold writeDefaults
    simp only [hend,hport,hportIpv6,hmaxPlayers,hserverName,hmotd,hgamemode,hforce,unlines_cons,unlines_nil,
      settingLine,List.append_assoc,List.cons_append,List.nil_append]
  exact hlines

theorem newline_notMem_toDecimal (n : Nat) : newline ∉ toDecimal n := by
  intro h
  rw [toDecimal_natCast] at h
  exact absurd (Decimal.isDigit_of_mem_digits h) (by decide)

theorem newline_notMem_line {cfg : ServerProperties} (hname : newline ∉ cfg.serverName) (hmotd : newline ∉ cfg.motd)
    (s : Setting) : newline ∉ cfg.line s := by
  have hkey : newline ∉ s.key := by cases s <;> decide
  have hmode : ∀ mode, newline ∉ toGameModeString mode := by
    intro mode
    cases mode <;> decide
  have htext : newline ∉ s.write (s.get cfg) := by
    cases s with
    | port | portIpv6 | maxPlayers | forceResources => exact newline_notMem_toDecimal _
    | serverName => exact hname
    | motd => exact hmotd
    | defaultGameMode => exact hmode _
  have hsign : newline ≠ equalsSign := by decide
  simp only [line,settingLine,List.mem_append,List.mem_cons,not_or]
  exact ⟨hkey,hsign,htext⟩

theorem valueOf_line (cfg : ServerProperties) (s t : Setting) :
    valueOf s.key (cfg.line t) = if t = s then some (t.write (t.get cfg)) else none := by
  rw [line,valueOf_settingLine t.key_ok]
  by_cases h : t = s
  · simp [h]
  · have hkey : t.key ≠ s.key := fun heq => h (Setting.key_injective heq)
    simp [h,hkey]

/-- A file of the lines that are written for a configuration, in any order and among lines that set
nothing, is read back as the configuration. -/
theorem load_written (cfg : ServerProperties) (hname : newline ∉ cfg.serverName) (hmotd : newline ∉ cfg.motd)
    (content : Bytes) (inserted : List Bytes) (hinserted : ∀ line ∈ inserted, Ignored line)
    (hlines : (getLines content).Perm (getLines (writeDefaults cfg) ++ inserted)) :
    load (.text content) = .ok (cfg,.text content) := by
  have hwritten : getLines (writeDefaults cfg) = Setting.all.map cfg.line := by
    rw [writeDefaults_eq,getLines_unlines]
    intro l hl
    obtain ⟨s,-,rfl⟩ := List.mem_map.mp hl
    exact newline_notMem_line hname hmotd s
  have hline : ∀ l ∈ getLines content, (∃ t, l = cfg.line t) ∨ Ignored l := by
    intro l hl
    rw [hlines.mem_iff,hwritten,List.mem_append,List.mem_map] at hl
    rcases hl with ⟨t,-,rfl⟩ | hl
    · exact Or.inl ⟨t,rfl⟩
    · exact Or.inr (hinserted l hl)
  -- The one value that any line has for a setting is the text of the setting.
  have hvalue : ∀ l ∈ getLines content, ∀ (s : Setting) v, valueOf s.key l = some v → v = s.write (s.get cfg) := by
    intro l hl s v hv
    rcases hline l hl with ⟨t,rfl⟩ | hignored
    · rw [valueOf_line] at hv
      split at hv
      · rename_i heq
        subst heq
        exact (Option.some.inj hv).symm
      · cases hv
    · rw [hignored.valueOf s] at hv
      cases hv
  rw [load_iff]
  refine ⟨rfl,?_,?_⟩
  · intro l hl s v hv
    rw [hvalue l hl s v hv]
    exact ⟨_,s.read_write _⟩
  · intro s
    have hmem : cfg.line s ∈ getLines content := by
      rw [hlines.mem_iff,hwritten]
      exact List.mem_append_left _ (List.mem_map_of_mem s.mem_all)
    have hlast : lastValue s.key (getLines content) = some (s.write (s.get cfg)) :=
      lastValue_eq_some hmem (by rw [valueOf_line,if_pos rfl]) fun l hl => hvalue l hl s
    rw [hlast]
    exact s.read_write _

def viewer : ServerProperties :=
  { port := 65535, portIpv6 := 1, maxPlayers := 4294967295, serverName := ascii "#a=b", motd := ascii "=#",
    defaultGameMode := .SURVIVAL_VIEWER, forceResources := true }

def viewerLines : List Bytes := [ascii "# note=1",[],ascii "view-distance=8",ascii "=",ascii "gamemode"]

theorem load_written_viewer :
    newline ∉ viewer.serverName ∧ newline ∉ viewer.motd ∧ (∀ line ∈ viewerLines, Ignored line) ∧
      load (.text (unlines (viewerLines ++ (getLines (writeDefaults viewer)).reverse))) =
        .ok (viewer,.text (unlines (viewerLines ++ (getLines (writeDefaults viewer)).reverse))) := by
  have hname : newline ∉ viewer.serverName := by decide
  have hmotd : newline ∉ viewer.motd := by decide
  have hinserted : ∀ line ∈ viewerLines, Ignored line := by
    intro line hline
    simp only [viewerLines,List.mem_cons,List.not_mem_nil,or_false] at hline
    rcases hline with rfl | rfl | rfl | rfl | rfl
    · exact Or.inr (Or.inl (by decide))
    · exact Or.inl rfl
    · exact Or.inr (Or.inr (Or.inr ⟨ascii "view-distance",ascii "8",by decide,by intro s; cases s <;> decide⟩))
    · exact Or.inr (Or.inr (Or.inr ⟨[],[],by decide,fun s => s.key_ok.nonempty⟩))
    · exact Or.inr (Or.inr (Or.inl (by decide)))
  refine ⟨hname,hmotd,hinserted,load_written viewer hname hmotd _ viewerLines hinserted ?_⟩
  rw [getLines_unlines (by decide)]
  exact (List.perm_append_comm).trans ((List.reverse_perm _).append_right _)

end ServerProperties

end CyrexMC
