import CyrexMC.BinaryWriter
import CyrexMC.Lib.Text
import CyrexMC.Session.NetworkSession
import CyrexMC.Util.ServerProperties
set_option autoImplicit false

/-! `raknet/motd/raknet_motd.cpp`, and the offline ping response that `RaknetHandler` makes of it. -/

namespace CyrexMC
open Delimited

structure ServerView where
  config : ServerProperties
  players : List Guid := []
  serverUniqueId : UInt64

def ServerView.getPlayerCount (s : ServerView) : Nat := s.players.length

def gmNumeric (mode : GameMode) : Int :=
  let numeric := if mode = .CREATIVE then 0 else 1
  if mode = .ADVENTURE then 2 else numeric

def buildMotd (s : ServerView) : Bytes :=
  ascii "MCPE;" ++ s.config.motd ++ ascii ";" ++
  toDecimal ProtocolInfo.currentProtocol.toNat ++ ascii ";" ++
  ProtocolInfo.minecraftVersionNetwork ++ ascii ";" ++
  toDecimal s.getPlayerCount ++ ascii ";" ++
  toDecimal s.config.maxPlayers.toNat ++ ascii ";" ++
  toDecimal s.serverUniqueId.toNat ++ ascii ";" ++
  s.config.serverName ++ ascii ";" ++
  toGameModeString s.config.defaultGameMode ++ ascii ";" ++
  toDecimal (gmNumeric s.config.defaultGameMode) ++ ascii ";" ++
  toDecimal s.config.port.toNat ++ ascii ";" ++
  toDecimal s.config.portIpv6.toNat ++ ascii ";"

def offlinePingResponse (s : ServerView) : Bytes :=
  let motd := buildMotd s
  let len := UInt16.ofNat motd.length
  [(len >>> 8 &&& 0xFF).toUInt8,(len &&& 0xFF).toUInt8] ++ motd

def semicolon : UInt8 := 0x3B

structure Advertisement where
  motd : Bytes
  protocol : Nat
  version : Bytes
  players : Nat
  maxPlayers : Nat
  serverUniqueId : Nat
  serverName : Bytes
  gameMode : GameMode
  port : Nat
  portIpv6 : Nat
  deriving DecidableEq, Repr

def ServerView.advertisement (s : ServerView) : Advertisement :=
  { motd := s.config.motd, protocol := ProtocolInfo.currentProtocol.toNat,
    version := ProtocolInfo.minecraftVersionNetwork, players := s.getPlayerCount,
    maxPlayers := s.config.maxPlayers.toNat, serverUniqueId := s.serverUniqueId.toNat,
    serverName := s.config.serverName, gameMode := s.config.defaultGameMode, port := s.config.port.toNat,
    portIpv6 := s.config.portIpv6.toNat }

def readFields : List Bytes → Option Advertisement
  | [edition,motd,protocol,version,players,maxPlayers,serverUniqueId,serverName,gameMode,_,port,portIpv6] => do
    guard (edition = ascii "MCPE")
    let protocol ← Decimal.magnitude? protocol
    let players ← Decimal.magnitude? players
    let maxPlayers ← Decimal.magnitude? maxPlayers
    let serverUniqueId ← Decimal.magnitude? serverUniqueId
    let port ← Decimal.magnitude? port
    let portIpv6 ← Decimal.magnitude? portIpv6
    return { motd, protocol, version, players, maxPlayers, serverUniqueId, serverName,
             gameMode := parseGameMode gameMode, port, portIpv6 }
  | _ => none

/-- A reader of the response: the length in front has to be that of the text. -/
def readResponse : Bytes → Option Advertisement
  | high :: low :: text =>
    if FixedWidth.ofBE [high,low] = text.length then readFields (cut semicolon text).1 else none
  | _ => none

def ServerView.fields (s : ServerView) : List Bytes :=
  [ascii "MCPE",s.config.motd,toDecimal ProtocolInfo.currentProtocol.toNat,ProtocolInfo.minecraftVersionNetwork,
   toDecimal s.getPlayerCount,toDecimal s.config.maxPlayers.toNat,toDecimal s.serverUniqueId.toNat,
   s.config.serverName,toGameModeString s.config.defaultGameMode,toDecimal (gmNumeric s.config.defaultGameMode),
   toDecimal s.config.port.toNat,toDecimal s.config.portIpv6.toNat]

theorem buildMotd_fields (s : ServerView) : buildMotd s = join semicolon s.fields := by
  have hedition : ascii "MCPE;" = ascii "MCPE" ++ [semicolon] := by decide
  have hsep : ascii ";" = [semicolon] := by decide
  unfold buildMotd
  rw [hedition,hsep,join,ServerView.fields]
  -- The texts that are the same for every server are not to be computed here.
  generalize toDecimal ProtocolInfo.currentProtocol.toNat = protocol
  generalize ProtocolInfo.minecraftVersionNetwork = version
  generalize toDecimal (gmNumeric s.config.defaultGameMode) = numeric
  simp only [List.flatMap_cons,List.flatMap_nil,List.append_nil,List.append_assoc]

theorem semicolon_notMem_digits (n : Nat) : semicolon ∉ Decimal.digits n := by
  intro h
  have hdigit := Decimal.isDigit_of_mem_digits h
  cases hdigit

theorem semicolon_notMem_toDecimal (n : Nat) : semicolon ∉ toDecimal n := by
  rw [toDecimal_natCast]
  exact semicolon_notMem_digits n

theorem semicolon_notMem_fields (s : ServerView) :
    (∀ field ∈ s.fields, semicolon ∉ field) ↔ semicolon ∉ s.config.motd ∧ semicolon ∉ s.config.serverName := by
  have hmode : semicolon ∉ toGameModeString s.config.defaultGameMode := by cases s.config.defaultGameMode <;> decide
  have hnumeric : semicolon ∉ toDecimal (gmNumeric s.config.defaultGameMode) := by
    cases s.config.defaultGameMode <;> decide
  have hversion : semicolon ∉ ProtocolInfo.minecraftVersionNetwork := by decide
  have hedition : semicolon ∉ ascii "MCPE" := by decide
  simp only [ServerView.fields,List.mem_cons,List.not_mem_nil,or_false,forall_eq_or_imp,forall_eq,hedition,hversion,hmode,
    hnumeric,semicolon_notMem_toDecimal,not_false_eq_true,true_and,and_true]

theorem readFields_fields (s : ServerView) : readFields s.fields = some s.advertisement := by
  simp only [readFields,ServerView.fields,toDecimal_natCast,Decimal.magnitude?_digits,parseGameMode_toGameModeString]
  rfl

theorem length_of_readFields {fields : List Bytes} {a : Advertisement} (h : readFields fields = some a) :
    fields.length = 12 := by
  unfold readFields at h
  split at h
  · rfl
  · cases h

theorem ofBE_length (len : UInt16) :
    FixedWidth.ofBE [(len >>> 8 &&& 0xFF).toUInt8,(len &&& 0xFF).toUInt8] = len.toNat := by
  have hlt := len.toNat_lt
  have hmask : ∀ n : Nat, n &&& 255 = n%256 := fun n => Nat.and_two_pow_sub_one_eq_mod n 8
  simp only [FixedWidth.ofBE,List.reverse_cons,List.reverse_nil,List.nil_append,List.singleton_append,FixedWidth.ofLE,
    UInt16.toNat_toUInt8,UInt16.toNat_and,UInt16.toNat_shiftRight,UInt16.reduceToNat,hmask,Nat.shiftRight_eq_div_pow,
    Nat.reduceMod,Nat.reducePow]
  omega

/-- The response is read as it was meant just if the two texts have no semicolon in them and the
length of the whole fits the two bytes in front of it. -/
theorem offlinePingResponse_read_iff (s : ServerView) :
    readResponse (offlinePingResponse s) = some s.advertisement ↔
      (semicolon ∉ s.config.motd ∧ semicolon ∉ s.config.serverName) ∧ (buildMotd s).length < 2^16 := by
  have hlen : FixedWidth.ofBE [((UInt16.ofNat (buildMotd s).length) >>> 8 &&& 0xFF).toUInt8,
      ((UInt16.ofNat (buildMotd s).length) &&& 0xFF).toUInt8] = (buildMotd s).length%2^16 := by
    rw [ofBE_length,UInt16.toNat_ofNat']
  have hfits : (buildMotd s).length%2^16 = (buildMotd s).length ↔ (buildMotd s).length < 2^16 := Nat.mod_eq_iff_lt (by decide)
  simp only [offlinePingResponse,readResponse,List.cons_append,List.nil_append,hlen]
  rw [buildMotd_fields,← semicolon_notMem_fields]
  constructor
  · intro h
    split at h
    · rename_i hlength
      refine ⟨(cut_join_length_iff s.fields).mp ?_,by rw [← buildMotd_fields] at *; exact hfits.mp hlength⟩
      exact length_of_readFields h
    · cases h
  · rintro ⟨hfields,hlength⟩
    rw [← buildMotd_fields] at hlength ⊢
    rw [if_pos (hfits.mpr hlength),buildMotd_fields,cut_join hfields]
    exact readFields_fields s

end CyrexMC
