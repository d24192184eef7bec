import CyrexMC.Session.Batch
import CyrexMC.Session.PackQueue
set_option autoImplicit false

namespace CyrexMC
open Stateful

def PacketBody.version : PacketBody → Option UInt32
  | .requestNetworkSettings pk => some pk.protocolVersion
  | .login pk => some pk.protocol
  | _ => none

def ProtocolInfo.releases : List UInt32 := [R26U00]

/-- The array of accepted versions has a slot more than there are releases. -/
theorem isSupportedProtocol_iff (version : UInt32) :
    isSupportedProtocol version = true ↔ version ∈ ProtocolInfo.releases ∨ version = 0 := by
  simp only [isSupportedProtocol,ProtocolInfo.acceptedProtocols,ProtocolInfo.releases,List.any_cons,List.any_nil,
    Bool.or_false,Bool.or_eq_true,beq_iff_eq,List.mem_singleton]
  exact or_congr eq_comm eq_comm

/-- The modes that a session can be in: nothing is encrypted, and compression is by zlib. -/
structure NetworkSession.Moded (s : NetworkSession) : Prop where
  plain : s.encryptionEnabled = false
  zlib : s.compressionEnabled = true → s.compressor = some CompressionAlgorithm.ZLIB

variable {tp : ThirdParty}

theorem NetworkSession.Moded.assigned {s : NetworkSession} (h : s.Moded) :
    s.compressionEnabled = true → s.compressor ≠ none := by
  intro hmode
  simp [h.zlib hmode]

theorem Does.moded {w w' : World} (h : Does tp w w') (hw : w.session.Moded) : w'.session.Moded := by
  refine ⟨h.encryptionEnabled.trans hw.plain,?_⟩
  rw [h.compressionEnabled,h.compressor]
  exact hw.zlib

theorem moded_handle {body : PacketBody} {w w' : World} {b : Bool} (hw : w.session.Moded)
    (h : NetworkSession.handle tp body w = .ok b w') : w'.session.Moded := by
  by_cases hrequest : body.getDef = .requestNetworkSettings
  · cases body with
    | requestNetworkSettings pk =>
      cases hv : isSupportedProtocol pk.protocolVersion with
      | false =>
        obtain ⟨packet,d,-,-,hrun⟩ := NetworkSession.handleRequestNetworkSettings_unsupported tp hv hw.plain hw.assigned
        cases h.symm.trans hrun
        exact ⟨hw.plain,hw.zlib⟩
      | true =>
        obtain ⟨d,-,hrun⟩ := NetworkSession.handleRequestNetworkSettings_supported tp hv hw.plain hw.zlib
        cases h.symm.trans hrun
        exact ⟨hw.plain,fun _ => rfl⟩
    | _ => simp [PacketBody.getDef] at hrequest
  · exact ((NetworkSession.within_handle hrequest).ok h).moded hw

theorem moded_turn {body : Option PacketBody} {w w' : World} (hw : w.session.Moded) (h : Turn tp body w w') :
    w'.session.Moded := by
  cases h with
  | handle body b h => exact moded_handle hw h
  | tick h => exact (NetworkSession.within_flush.ok h).moded hw
  | others server markedForDisconnect h => exact ⟨hw.plain,hw.zlib⟩

/-- A packet of this version is turned away: one PlayStatus, and the session as it was. -/
structure Refused (tp : ThirdParty) (version : UInt32) (w w' : World) : Prop where
  session : w'.session = w.session
  answer : ∃ d, w'.server = { w.server with sent := w.server.sent ++ [(w.session.guid,d)] } ∧
    Wraps tp w.session [{ body := .playStatus { status :=
      if version < ProtocolInfo.currentProtocol then PlayStatus.LoginFailedClient else PlayStatus.LoginFailedServer } }] d

/-- A packet of a version that is no release is turned away, and ends its batch. -/
def Gated (tp : ThirdParty) (w : World) (body : PacketBody) : Prop :=
  ∀ version, body.version = some version → version ∉ ProtocolInfo.releases →
    ∃ w', NetworkSession.handle tp body w = .ok false w' ∧ Refused tp version w w' ∧
      ∀ subClientId packets ending, serve tp ({ subClientId, body } :: packets) ending w = .ok () w'

theorem handle_unsupported {body : PacketBody} {version : UInt32} {w : World} (hw : w.session.Moded)
    (hversion : body.version = some version) (hv : isSupportedProtocol version = false) :
    ∃ w', NetworkSession.handle tp body w = .ok false w' ∧ Refused tp version w w' := by
  obtain ⟨d,hd,hrun⟩ := NetworkSession.disconnectUserForIncompatibleProtocol_ok tp version hw.plain hw.assigned
  refine ⟨{ w with server := { w.server with sent := w.server.sent ++ [(w.session.guid,d)] } },?_,rfl,d,rfl,hd⟩
  cases body with
  | requestNetworkSettings pk =>
    cases hversion
    simp only [NetworkSession.handle,NetworkSession.handleRequestNetworkSettings,hv,Bool.not_false,if_true]
    exact bind_ok hrun
  | login pk =>
    cases hversion
    simp only [NetworkSession.handle,NetworkSession.handleLogin,hv,Bool.not_false,if_true]
    exact bind_ok hrun
  | _ => cases hversion

theorem handle_supported {body : PacketBody} {version : UInt32} {w w' : World} (hw : w.session.Moded)
    (hversion : body.version = some version) (hv : isSupportedProtocol version = true) :
    NetworkSession.handle tp body w ≠ .ok false w' := by
  intro h
  cases body with
  | requestNetworkSettings pk =>
    cases hversion
    obtain ⟨d,-,hrun⟩ := NetworkSession.handleRequestNetworkSettings_supported tp hv hw.plain hw.zlib
    cases h.symm.trans hrun
  | login pk =>
    cases hversion
    simp only [NetworkSession.handle,NetworkSession.handleLogin,hv,Bool.not_true,Bool.false_eq_true,if_false] at h
    split at h
    · cases h
    · obtain ⟨a,u,-,hreturn⟩ := of_bind_ok h
      cases hreturn
  | _ => cases hversion

theorem gated_iff {w : World} (hw : w.session.Moded) (body : PacketBody) :
    Gated tp w body ↔ body.version ≠ some 0 := by
  constructor
  · intro h hzero
    obtain ⟨w',hfalse,-⟩ := h 0 hzero (by decide)
    exact handle_supported hw hzero ((isSupportedProtocol_iff 0).mpr (Or.inr rfl)) hfalse
  · intro hne version hversion hlisted
    have hv : isSupportedProtocol version = false := by
      rw [Bool.eq_false_iff,ne_eq,isSupportedProtocol_iff]
      rintro (hmem | rfl)
      · exact hlisted hmem
      · exact hne hversion
    obtain ⟨w',hrun,hrefused⟩ := handle_unsupported hw hversion hv
    refine ⟨w',hrun,hrefused,fun subClientId packets ending => ?_⟩
    rw [serve,bind_ok hrun]
    rfl

/-- The packets that a session has handled in a run, each with the world that it found. -/
inductive Visits (tp : ThirdParty) (w₀ : World) : List (World × PacketBody) → World → Prop where
  | start : Visits tp w₀ [] w₀
  | turn {log : List (World × PacketBody)} {w w' : World} {body : Option PacketBody} (h : Visits tp w₀ log w)
      (ht : Turn tp body w w') : Visits tp w₀ (log ++ body.toList.map (w,·)) w'

theorem moded_visits {w₀ w : World} {log : List (World × PacketBody)} (h : Visits tp w₀ log w)
    (h₀ : w₀.session.Moded) : w.session.Moded ∧ ∀ visit ∈ log, visit.1.session.Moded := by
  induction h with
  | start => exact ⟨h₀,fun visit hmem => absurd hmem List.not_mem_nil⟩
  | turn h ht ih =>
    obtain ⟨hw,hlog⟩ := ih
    refine ⟨moded_turn hw ht,fun visit hmem => ?_⟩
    rcases List.mem_append.mp hmem with hmem | hmem
    · exact hlog visit hmem
    · obtain ⟨body,-,rfl⟩ := List.mem_map.mp hmem
      exact hw

theorem Visits.touched {w₀ w : World} {log : List (World × PacketBody)} (h : Visits tp w₀ log w) :
    w₀.server.factory.Touched tp w.server.factory := by
  induction h with
  | start => exact .refl _
  | turn h ht ih => exact ih.trans ht.touched

/-- In every run of a session, and for the packet that comes next, the versions are kept as they are
listed if and only if none of the packets has the version 0. -/
theorem gate_iff_nonzero {guid : Guid} {server : Server} {log : List (World × PacketBody)} {w : World}
    (hrun : Visits tp { session := { guid }, server } log w) (body : PacketBody) :
    (∀ visit ∈ log ++ [(w,body)], Gated tp visit.1 visit.2) ↔
      ∀ visit ∈ log ++ [(w,body)], visit.2.version ≠ some 0 := by
  obtain ⟨hw,hlog⟩ := moded_visits hrun ⟨rfl,fun hmode => by cases hmode⟩
  refine forall₂_congr fun visit hmem => gated_iff ?_ visit.2
  rcases List.mem_append.mp hmem with hmem | hmem
  · exact hlog visit hmem
  · cases List.mem_singleton.mp hmem
    exact hw

theorem gate_iff_nonzero_listed :
    let w₀ : World := { session := { guid := 7 }, server := .bare }
    let request : PacketBody := .requestNetworkSettings { protocolVersion := ProtocolInfo.R26U00 }
    let login : PacketBody := .login { protocol := 1 }
    ∃ w₁, NetworkSession.handle .failing request w₀ = .ok true w₁ ∧
      ∀ visit ∈ [(w₀,request)] ++ [(w₁,login)], Gated .failing visit.1 visit.2 := by
  intro w₀ request login
  have hrun : ∃ w₁, NetworkSession.handle .failing request w₀ = .ok true w₁ := ⟨_,rfl⟩
  obtain ⟨w₁,hr⟩ := hrun
  have hturn : Turn .failing (some request) w₀ w₁ := .handle request true hr
  have hvisits : Visits .failing w₀ ([] ++ [(w₀,request)]) w₁ := .turn .start hturn
  refine ⟨w₁,hr,(gate_iff_nonzero hvisits login).mpr fun visit hmem => ?_⟩
  rcases List.mem_pair.mp hmem with rfl | rfl <;> simp [PacketBody.version,request,login,ProtocolInfo.R26U00]

/-- The version 0 is let in, and switches the compression on. -/
theorem version_zero_admitted :
    let w : World := { session := { guid := 7 }, server := .bare }
    let body : PacketBody := .requestNetworkSettings { protocolVersion := 0 }
    Visits .failing w [] w ∧ ¬ Gated .failing w body ∧
      ∃ w', NetworkSession.handle .failing body w = .ok true w' ∧ w'.session.compressionEnabled = true := by
  intro w body
  have hrun : ∃ w', NetworkSession.handle .failing body w = .ok true w' ∧ w'.session.compressionEnabled = true :=
    ⟨_,rfl,rfl⟩
  refine ⟨.start,?_,hrun⟩
  intro h
  obtain ⟨w',hfalse,-⟩ := h 0 rfl (by decide)
  obtain ⟨w'',htrue,-⟩ := hrun
  cases htrue.symm.trans hfalse

end CyrexMC
