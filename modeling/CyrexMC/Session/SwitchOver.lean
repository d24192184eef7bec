import CyrexMC.Session.Batch
import CyrexMC.Session.Effects
import CyrexMC.Session.RaknetHandler
set_option autoImplicit false

/-! A session and its client, joined by two ordered channels, while the compression is switched on. -/

namespace CyrexMC
open Stateful

/-- A datagram to the server, with the payload and the mode its writer had in mind. -/
structure Upload where
  datagram : Bytes
  payload : Bytes
  compressed : Bool

/-- A datagram to the client, with the mode of the session when it wrote it; whether it is a
NetworkSettings packet, and whether it was sent while a RequestNetworkSettings was handled. -/
structure Downlink where
  datagram : Bytes
  compressed : Bool
  settings : Bool
  answers : Bool

variable (tp : ThirdParty)

def PacketBody.isRequest (body : PacketBody) : Bool := body.getDef = .requestNetworkSettings

def PacketBody.isAccepted : PacketBody → Bool
  | .requestNetworkSettings pk => isSupportedProtocol pk.protocolVersion
  | _ => false

def Upload.asks (u : Upload) : Bool := (parseBatch tp u.payload).1.any fun packet => packet.body.isRequest

/-- How a client writes: a plain batch as it is, and else behind the byte of an algorithm. -/
structure Upload.Written (u : Upload) : Prop where
  long : 2 ≤ u.datagram.tail.length
  plain : u.compressed = false → u.datagram.tail = u.payload
  tagged : u.compressed = true → ∃ method body, u.datagram.tail = method :: body ∧
    match getCompressor ⟨method⟩ with
    | some compressor => compressor.decompress tp body = some u.payload
    | none => body = u.payload

/-- A datagram to the client is what `sendInternal` makes of some packets in its mode. -/
def Downlink.Written (d : Downlink) : Prop :=
  ∃ packets : List Packet, (d.settings = false → NoSettings packets) ∧
    (d.settings = true → ∃ pk, packets = [{ body := .networkSettings pk }]) ∧
    ∃ out, d.datagram = 0xFE :: out ∧
      if d.compressed then
        out = CompressionAlgorithm.NONE.value :: packets.flatMap (Packet.encode tp) ∨
        ∃ c, ZlibCompressor.compress tp (packets.flatMap (Packet.encode tp)) = some c ∧
          out = CompressionAlgorithm.ZLIB.value :: c
      else out = packets.flatMap (Packet.encode tp)

structure Link where
  world : World
  /-- What is left of the batch that is being handled. -/
  batch : Option (List Packet × Option Fault) := none
  toServer : List Upload := []
  toClient : List Downlink := []
  received : List Downlink := []
  /-- A RequestNetworkSettings is out and its answer has not come in. -/
  awaiting : Bool := false

namespace Link

/-- The mode of the client: it has received a NetworkSettings packet. -/
def clientCompressed (l : Link) : Bool := l.received.any fun d => d.settings

/-- The datagrams that a step of the session from `w` to `w'` has handed to the transport. -/
def downloads (w w' : World) (settings answers : Bool) : List Downlink :=
  (w'.server.sent.drop w.server.sent.length).map fun d =>
    ⟨d.2,w.session.compressionEnabled,settings,answers⟩

inductive Step : Link → Link → Prop where
  | clientSend (l : Link) (u : Upload) (hidle : l.awaiting = false)
      (hmode : u.compressed = l.clientCompressed) (hw : u.Written tp) :
      Step l { l with toServer := l.toServer ++ [u], awaiting := u.asks tp }
  | clientReceive (l : Link) (d : Downlink) (rest : List Downlink) (h : l.toClient = d :: rest) :
      Step l { l with toClient := rest, received := l.received ++ [d],
                      awaiting := l.awaiting && !d.answers }
  /-- `route` up to the call of `onRaw`. -/
  | route (l : Link) (u : Upload) (rest : List Upload) (payload : Bytes) (hidle : l.batch = none)
      (h : l.toServer = u :: rest)
      (hp : McbePacketRouter.decompressIncoming tp l.world.session.compressionEnabled u.datagram.tail =
        .ok payload) :
      Step l { l with toServer := rest, batch := some (parseBatch tp payload) }
  | handled (l : Link) (packet : Packet) (packets : List Packet) (ending : Option Fault) (b : Bool)
      (w : World) (h : l.batch = some (packet :: packets,ending))
      (hr : NetworkSession.handle tp packet.body l.world = .ok b w) :
      Step l { l with world := w, batch := if b then some (packets,ending) else none,
                      toClient := l.toClient ++
                        downloads l.world w packet.body.isAccepted packet.body.isRequest }
  | finished (l : Link) (h : l.batch = some ([],none)) : Step l { l with batch := none }
  | tick (l : Link) (w : World) (hidle : l.batch = none)
      (hr : NetworkSession.tick tp l.world = .ok () w) :
      Step l { l with world := w, toClient := l.toClient ++ downloads l.world w false false }
  /-- Any other packet the server may send. -/
  | send (l : Link) (packet : Packet) (immediately : Bool) (w : World)
      (hpacket : packet.body.getDef ≠ .networkSettings)
      (hr : NetworkSession.send tp packet immediately l.world = .ok () w) :
      Step l { l with world := w, toClient := l.toClient ++ downloads l.world w false false }
  /-- The other sessions use the packs and the transport. -/
  | others (l : Link) (server : Server) : Step l { l with world := { l.world with server } }

def start (guid : Guid) (server : Server) : Link := { world := ⟨{ guid },server⟩ }

/-- Each datagram is written in the mode that the settings packets before it have brought about. -/
def InMode (compressed : Bool) : List Downlink → Prop
  | [] => True
  | d :: ds => d.compressed = compressed ∧ InMode (compressed || d.settings) ds

theorem inMode_append (m : Bool) (ds es : List Downlink) :
    InMode m (ds ++ es) ↔ InMode m ds ∧ InMode (m || ds.any fun d => d.settings) es := by
  induction ds generalizing m with
  | nil => simp [InMode]
  | cons d ds ih => simp [InMode,ih,and_assoc,Bool.or_assoc]

theorem inMode_split {m : Bool} {ds pre post : List Downlink} {d : Downlink} (h : InMode m ds)
    (hs : ds = pre ++ d :: post) : d.compressed = (m || pre.any fun d => d.settings) := by
  rw [hs,inMode_append] at h
  exact h.2.1

structure Ready (s : NetworkSession) : Prop where
  encryption : s.encryptionEnabled = false
  compressor : s.compressionEnabled = true → s.compressor = some CompressionAlgorithm.ZLIB
  queue : NoSettings s.sendQueue

structure Emits (w w' : World) (ds : List Downlink) : Prop where
  ready : Ready w'.session
  flag : w'.session.compressionEnabled = (w.session.compressionEnabled || ds.any fun d => d.settings)
  mode : InMode w.session.compressionEnabled ds
  written : ∀ d ∈ ds, d.Written tp

variable {tp}

theorem wraps_written {s : NetworkSession} (hs : Ready s) {packets : List Packet} {datagram : Bytes}
    (h : Wraps tp s packets datagram) :
    ∃ out, datagram = 0xFE :: out ∧
      if s.compressionEnabled then
        out = CompressionAlgorithm.NONE.value :: packets.flatMap (Packet.encode tp) ∨
        ∃ c, ZlibCompressor.compress tp (packets.flatMap (Packet.encode tp)) = some c ∧
          out = CompressionAlgorithm.ZLIB.value :: c
      else out = packets.flatMap (Packet.encode tp) := by
  obtain ⟨out,hout,hd⟩ := h
  refine ⟨out,hd,?_⟩
  by_cases hmode : s.compressionEnabled
  · have hzlib : getCompressor CompressionAlgorithm.ZLIB = some .zlib := by decide
    simp only [NetworkSession.compressOutgoing,hmode,if_true,hs.compressor hmode,hzlib] at hout
    simp only [hmode,if_true]
    split at hout
    · split at hout
      · rename_i c hc
        cases hout
        exact Or.inr ⟨c,hc,rfl⟩
      · cases hout
    · cases hout
      exact Or.inl rfl
  · simp only [NetworkSession.compressOutgoing,hmode] at hout ⊢
    cases hout
    rfl

theorem inMode_quiet {m : Bool} {ds : List Downlink} (h : ∀ d ∈ ds, d.compressed = m ∧ d.settings = false) :
    InMode m ds := by
  induction ds with
  | nil => trivial
  | cons d ds ih =>
    have hd := h d List.mem_cons_self
    refine ⟨hd.1,?_⟩
    rw [hd.2,Bool.or_false]
    exact ih fun e he => h e (List.mem_cons_of_mem d he)

theorem emits_does {w w' : World} (hw : Ready w.session) (h : Does tp w w') (answers : Bool) :
    Emits tp w w' (downloads w w' false answers) := by
  obtain ⟨datagrams,hsent,hwraps⟩ := h.sent
  have hds : downloads w w' false answers =
      datagrams.map fun d => ⟨d,w.session.compressionEnabled,false,answers⟩ := by
    simp [downloads,hsent]
  have hready : Ready w'.session := ⟨h.encryptionEnabled.trans hw.encryption,fun he => by
    rw [h.compressionEnabled] at he
    rw [h.compressor]
    exact hw.compressor he,h.queued hw.queue⟩
  refine ⟨hready,?_,?_,?_⟩
  · simp [hds,h.compressionEnabled]
  · refine inMode_quiet fun d hd => ?_
    rw [hds] at hd
    obtain ⟨datagram,-,rfl⟩ := List.mem_map.mp hd
    exact ⟨rfl,rfl⟩
  · intro d hd
    rw [hds] at hd
    obtain ⟨datagram,hmem,rfl⟩ := List.mem_map.mp hd
    obtain ⟨packets,hp,hwrap⟩ := hwraps hw.encryption hw.queue datagram hmem
    exact ⟨packets,fun _ => hp,fun hf => by simp at hf,wraps_written hw hwrap⟩

theorem emits_request {w w' : World} {pk : RequestNetworkSettingsPacket} {b : Bool} (hw : Ready w.session)
    (hr : NetworkSession.handle tp (.requestNetworkSettings pk) w = .ok b w') :
    ∃ d, downloads w w' (isSupportedProtocol pk.protocolVersion) true = [d] ∧
      d.settings = isSupportedProtocol pk.protocolVersion ∧ d.answers = true ∧
      b = isSupportedProtocol pk.protocolVersion ∧ Emits tp w w' [d] := by
  have hne : w.session.compressionEnabled = true → w.session.compressor ≠ none := fun he => by
    rw [hw.compressor he]
    simp
  cases hv : isSupportedProtocol pk.protocolVersion with
  | true =>
    obtain ⟨datagram,hwrap,hrun⟩ := NetworkSession.handleRequestNetworkSettings_supported tp hv
      hw.encryption hw.compressor
    have hok := hr.symm.trans hrun
    simp only [EStateM.Result.ok.injEq] at hok
    obtain ⟨rfl,rfl⟩ := hok
    refine ⟨⟨datagram,w.session.compressionEnabled,true,true⟩,by simp [downloads],rfl,rfl,rfl,?_⟩
    refine ⟨⟨hw.encryption,fun _ => rfl,hw.queue⟩,by simp,⟨rfl,trivial⟩,fun d hd => ?_⟩
    cases List.mem_singleton.mp hd
    exact ⟨_,fun hf => by simp at hf,fun _ => ⟨_,rfl⟩,wraps_written hw hwrap⟩
  | false =>
    obtain ⟨packet,datagram,hp,hwrap,hrun⟩ :=
      NetworkSession.handleRequestNetworkSettings_unsupported tp hv hw.encryption hne
    have hok := hr.symm.trans hrun
    simp only [EStateM.Result.ok.injEq] at hok
    obtain ⟨rfl,rfl⟩ := hok
    refine ⟨⟨datagram,w.session.compressionEnabled,false,true⟩,by simp [downloads],rfl,rfl,rfl,?_⟩
    refine ⟨hw,by simp,⟨rfl,trivial⟩,fun d hd => ?_⟩
    cases List.mem_singleton.mp hd
    exact ⟨_,fun _ p hmem => List.mem_singleton.mp hmem ▸ hp,fun hf => by simp at hf,wraps_written hw hwrap⟩

variable (tp) in
def NoAsk (l : Link) : Prop :=
  (∀ packets ending, l.batch = some (packets,ending) → ∀ p ∈ packets, p.body.isRequest = false) ∧
    ∀ u ∈ l.toServer, u.asks tp = false

def NoAnswer (ds : List Downlink) : Prop := ∀ d ∈ ds, d.answers = false

variable (tp) in
/-- Before the switch: at most one request or its answer is on its way, the client waits for it,
and nothing is behind the request. -/
structure Plain (l : Link) : Prop where
  off : l.world.session.compressionEnabled = false
  calm : l.awaiting = false → NoAsk tp l ∧ NoAnswer l.toClient
  one : NoAsk tp l ∨ NoAnswer l.toClient
  count : (l.toClient.filter fun d => d.answers).length ≤ 1
  last : ∀ pre u post, l.toServer = pre ++ u :: post → u.asks tp = true → post = []
  behind : ∀ packets ending, l.batch = some (packets,ending) →
    (∃ p ∈ packets, p.body.isRequest = true) → l.toServer = []

/-- The server has switched and the client has not: the settings packet is on its way, the
client waits, and nothing is on its way to the server. -/
structure Switching (l : Link) : Prop where
  on : l.world.session.compressionEnabled = true
  empty : l.toServer = []
  waits : l.awaiting = true
  coming : ∃ pre d post, l.toClient = pre ++ d :: post ∧ d.settings = true ∧ NoAnswer pre

structure Settled (l : Link) : Prop where
  on : l.world.session.compressionEnabled = true
  client : l.clientCompressed = true

variable (tp) in
structure Inv (l : Link) : Prop where
  ready : Ready l.world.session
  flag : l.world.session.compressionEnabled = (l.received ++ l.toClient).any fun d => d.settings
  mode : InMode false (l.received ++ l.toClient)
  written : ∀ d ∈ l.received ++ l.toClient, d.Written tp
  uploads : ∀ u ∈ l.toServer, u.compressed = l.world.session.compressionEnabled ∧ u.Written tp
  phase : Plain tp l ∨ Switching l ∨ Settled l

theorem inv_start (guid : Guid) (server : Server) : Inv tp (start guid server) := by
  refine ⟨⟨rfl,fun h => by simp [start] at h,fun p h => by simp [start] at h⟩,rfl,trivial,
    fun d h => by simp [start] at h,fun u h => by simp [start] at h,Or.inl ?_⟩
  have hask : NoAsk tp (start guid server) :=
    ⟨fun _ _ h => by simp [start] at h,fun u h => by simp [start] at h⟩
  have hanswer : NoAnswer (start guid server).toClient := fun d h => by simp [start] at h
  exact ⟨rfl,fun _ => ⟨hask,hanswer⟩,Or.inl hask,by simp [start],fun pre u post h => by simp [start] at h,
    fun _ _ h => by simp [start] at h⟩

theorem noAnswer_append {ds es : List Downlink} : NoAnswer (ds ++ es) ↔ NoAnswer ds ∧ NoAnswer es := by
  simp [NoAnswer,or_imp,forall_and]

theorem filter_noAnswer {ds : List Downlink} (h : NoAnswer ds) : ds.filter (fun d => d.answers) = [] := by
  simpa [NoAnswer] using h

theorem Inv.emit {l : Link} (h : Inv tp l) {w : World} {ds : List Downlink} (he : Emits tp l.world w ds)
    {batch : Option (List Packet × Option Fault)}
    (huploads : ∀ u ∈ l.toServer, u.compressed = w.session.compressionEnabled)
    (hphase : let l' := { l with world := w, batch, toClient := l.toClient ++ ds }
      Plain tp l' ∨ Switching l' ∨ Settled l') :
    Inv tp { l with world := w, batch, toClient := l.toClient ++ ds } := by
  refine ⟨he.ready,?_,?_,?_,fun u hu => ⟨huploads u hu,(h.uploads u hu).2⟩,hphase⟩
  · simp only [he.flag,h.flag,← List.append_assoc,List.any_append]
  · simp only [← List.append_assoc]
    rw [inMode_append]
    refine ⟨h.mode,?_⟩
    rw [← h.flag,Bool.false_or]
    exact he.mode
  · intro d hd
    simp only [← List.append_assoc] at hd
    rcases List.mem_append.mp hd with hd | hd
    · exact h.written d hd
    · exact he.written d hd

theorem phase_quiet {l : Link} (h : Plain tp l ∨ Switching l ∨ Settled l) {w : World} {ds : List Downlink}
    {batch : Option (List Packet × Option Fault)}
    (hflag : w.session.compressionEnabled = l.world.session.compressionEnabled) (hds : NoAnswer ds)
    (hbatch : ∀ packets ending, batch = some (packets,ending) → ∃ before,
      l.batch = some (before ++ packets,ending)) :
    let l' := { l with world := w, batch, toClient := l.toClient ++ ds }
    Plain tp l' ∨ Switching l' ∨ Settled l' := by
  intro l'
  have hask : NoAsk tp l → NoAsk tp l' := by
    intro hn
    refine ⟨fun packets ending hb p hp => ?_,hn.2⟩
    obtain ⟨before,hl⟩ := hbatch packets ending hb
    exact hn.1 _ _ hl p (List.mem_append_right before hp)
  rcases h with hp | hs | hs
  · refine Or.inl ⟨hflag.trans hp.off,?_,?_,?_,hp.last,?_⟩
    · intro ha
      obtain ⟨hn,hna⟩ := hp.calm ha
      exact ⟨hask hn,noAnswer_append.mpr ⟨hna,hds⟩⟩
    · rcases hp.one with hn | hna
      · exact Or.inl (hask hn)
      · exact Or.inr (noAnswer_append.mpr ⟨hna,hds⟩)
    · simpa [l',filter_noAnswer hds] using hp.count
    · intro packets ending hb ⟨p,hmem,hreq⟩
      obtain ⟨before,hl⟩ := hbatch packets ending hb
      exact hp.behind _ _ hl ⟨p,List.mem_append_right before hmem,hreq⟩
  · obtain ⟨pre,d,post,hc,hd,hpre⟩ := hs.coming
    exact Or.inr (Or.inl ⟨hflag.trans hs.on,hs.empty,hs.waits,pre,d,post ++ ds,by simp [l',hc],hd,hpre⟩)
  · exact Or.inr (Or.inr ⟨hflag.trans hs.on,hs.client⟩)

theorem Inv.quiet {l : Link} (h : Inv tp l) {w : World} (hw : Does tp l.world w)
    {batch : Option (List Packet × Option Fault)}
    (hbatch : ∀ packets ending, batch = some (packets,ending) → ∃ before,
      l.batch = some (before ++ packets,ending)) :
    Inv tp { l with world := w, batch, toClient := l.toClient ++ downloads l.world w false false } := by
  refine h.emit (emits_does h.ready hw false) (fun u hu => ?_) (phase_quiet h.phase hw.compressionEnabled ?_ hbatch)
  · rw [hw.compressionEnabled]
    exact (h.uploads u hu).1
  · intro d hd
    obtain ⟨datagram,-,rfl⟩ := List.mem_map.mp hd
    rfl

theorem Inv.still {l : Link} (h : Inv tp l) (server : Server) {batch : Option (List Packet × Option Fault)}
    (hbatch : ∀ packets ending, batch = some (packets,ending) → ∃ before,
      l.batch = some (before ++ packets,ending)) :
    Inv tp { l with world := { l.world with server }, batch } := by
  have hphase := phase_quiet h.phase (w:={ l.world with server }) rfl
    (show NoAnswer [] from fun d hd => by simp at hd) hbatch
  simp only [List.append_nil] at hphase
  exact ⟨h.ready,h.flag,h.mode,h.written,h.uploads,hphase⟩

theorem Inv.request {l : Link} (h : Inv tp l) {packet : Packet} {pk : RequestNetworkSettingsPacket}
    {packets : List Packet} {ending : Option Fault} {b : Bool} {w : World}
    (hb : l.batch = some (packet :: packets,ending)) (hpk : packet.body = .requestNetworkSettings pk)
    (hr : NetworkSession.handle tp (.requestNetworkSettings pk) l.world = .ok b w) :
    Inv tp { l with world := w, batch := if b then some (packets,ending) else none,
                    toClient := l.toClient ++ downloads l.world w (isSupportedProtocol pk.protocolVersion) true } := by
  obtain ⟨d,hds,hset,hans,hbv,he⟩ := emits_request h.ready hr
  rw [hds]
  have hflag := he.flag
  simp only [List.any_cons,List.any_nil,Bool.or_false] at hflag
  have hreq : ∃ p ∈ packet :: packets, p.body.isRequest = true :=
    ⟨packet,List.mem_cons_self,by simp [PacketBody.isRequest,hpk,PacketBody.getDef]⟩
  rcases h.phase with hp | hs | hs
  · have hempty := hp.behind _ _ hb hreq
    have hask : ¬ NoAsk tp l := fun hn => by
      obtain ⟨p,hmem,hreq⟩ := hreq
      rw [hn.1 _ _ hb p hmem] at hreq
      cases hreq
    have hnone : NoAnswer l.toClient := hp.one.resolve_left hask
    have hawait : l.awaiting = true := by
      by_contra ha
      exact hask (hp.calm (by simpa using ha)).1
    refine h.emit he (fun u hu => by simp [hempty] at hu) ?_
    cases hv : d.settings with
    | true =>
      rw [hv,Bool.or_true] at hflag
      exact Or.inr (Or.inl ⟨hflag,hempty,hawait,l.toClient,d,[],rfl,hv,hnone⟩)
    | false =>
      have hbf : b = false := hbv.trans (hset.symm.trans hv)
      rw [hv,Bool.or_false] at hflag
      have hask' : NoAsk tp { l with world := w, batch := if b then some (packets,ending) else none,
                                     toClient := l.toClient ++ [d] } :=
        ⟨fun _ _ hb' => by simp [hbf] at hb',fun u hu => by simp [hempty] at hu⟩
      refine Or.inl ⟨hflag.trans hp.off,fun ha => ?_,Or.inl hask',?_,hp.last,fun _ _ hb' => ?_⟩
      · rw [hawait] at ha
        cases ha
      · simp [filter_noAnswer hnone,hans]
      · simp [hbf] at hb'
  · have hon : w.session.compressionEnabled = true := by rw [hflag,hs.on,Bool.true_or]
    obtain ⟨pre,d',post,hc,hd,hpre⟩ := hs.coming
    refine h.emit he (fun u hu => by simp [hs.empty] at hu) (Or.inr (Or.inl ?_))
    exact ⟨hon,hs.empty,hs.waits,pre,d',post ++ [d],by simp [hc],hd,hpre⟩
  · have hon : w.session.compressionEnabled = true := by rw [hflag,hs.on,Bool.true_or]
    refine h.emit he (fun u hu => ?_) (Or.inr (Or.inr ⟨hon,hs.client⟩))
    rw [hon,← hs.on]
    exact (h.uploads u hu).1

theorem Inv.clientSend {l : Link} (h : Inv tp l) {u : Upload} (hidle : l.awaiting = false)
    (hmode : u.compressed = l.clientCompressed) (hw : u.Written tp) :
    Inv tp { l with toServer := l.toServer ++ [u], awaiting := u.asks tp } := by
  have hclient : l.clientCompressed = l.world.session.compressionEnabled := by
    rcases h.phase with hp | hs | hs
    · have hoff := hp.off
      rw [h.flag,List.any_append,Bool.or_eq_false_iff] at hoff
      rw [hp.off]
      exact hoff.1
    · rw [hs.waits] at hidle
      cases hidle
    · rw [hs.on,hs.client]
  refine ⟨h.ready,h.flag,h.mode,h.written,fun v hv => ?_,?_⟩
  · rcases List.mem_append.mp hv with hv | hv
    · exact h.uploads v hv
    · cases List.mem_singleton.mp hv
      exact ⟨hmode.trans hclient,hw⟩
  · rcases h.phase with hp | hs | hs
    · obtain ⟨hn,hna⟩ := hp.calm hidle
      refine Or.inl ⟨hp.off,fun ha => ⟨⟨hn.1,fun v hv => ?_⟩,hna⟩,Or.inr hna,hp.count,?_,?_⟩
      · rcases List.mem_append.mp hv with hv | hv
        · exact hn.2 v hv
        · cases List.mem_singleton.mp hv
          exact ha
      · -- Only the new upload can ask, and it is the last.
        intro pre v post hs hasks
        rcases List.eq_nil_or_concat post with hnil | ⟨post',z,hpost⟩
        · exact hnil
        · have hs' : l.toServer ++ [u] = (pre ++ v :: post') ++ [z] := by simpa [hpost] using hs
          have hinit : l.toServer = pre ++ v :: post' := (List.append_inj' hs' rfl).1
          rw [hn.2 v (by simp [hinit])] at hasks
          cases hasks
      · intro packets ending hb ⟨p,hmem,hreq⟩
        rw [hn.1 packets ending hb p hmem] at hreq
        cases hreq
    · rw [hs.waits] at hidle
      cases hidle
    · exact Or.inr (Or.inr ⟨hs.on,hs.client⟩)

theorem Inv.clientReceive {l : Link} (h : Inv tp l) {d : Downlink} {rest : List Downlink}
    (hd : l.toClient = d :: rest) :
    Inv tp { l with toClient := rest, received := l.received ++ [d],
                    awaiting := l.awaiting && !d.answers } := by
  have hsame : (l.received ++ [d]) ++ rest = l.received ++ l.toClient := by simp [hd]
  refine ⟨h.ready,by rw [hsame]; exact h.flag,by rw [hsame]; exact h.mode,by rw [hsame]; exact h.written,
    h.uploads,?_⟩
  rcases h.phase with hp | hs | hs
  · have hcount := hp.count
    have htail : NoAnswer l.toClient → NoAnswer rest := fun hn e he => hn e (by simp [hd,he])
    refine Or.inl ⟨hp.off,fun ha => ?_,?_,?_,hp.last,hp.behind⟩
    · cases hans : d.answers with
      | true =>
        have hask := hp.one.resolve_right fun hn => by
          rw [hn d (by simp [hd])] at hans
          cases hans
        have hrest : NoAnswer rest := by simpa [hd,hans,NoAnswer] using hcount
        exact ⟨hask,hrest⟩
      | false =>
        have hcalm := hp.calm (by simpa [hans] using ha)
        exact ⟨hcalm.1,htail hcalm.2⟩
    · exact hp.one.imp id htail
    · rw [hd] at hcount
      exact Nat.le_trans (List.Sublist.length_le ((List.sublist_cons_self d rest).filter _)) hcount
  · obtain ⟨pre,e,post,hc,he,hpre⟩ := hs.coming
    have hcons : d :: rest = pre ++ e :: post := hd.symm.trans hc
    cases hset : d.settings with
    | true =>
      refine Or.inr (Or.inr ⟨hs.on,?_⟩)
      simp [clientCompressed,hset]
    | false =>
      cases pre with
      | nil =>
        rw [List.nil_append,List.cons.injEq] at hcons
        rw [hcons.1,he] at hset
        cases hset
      | cons x pre =>
        rw [List.cons_append,List.cons.injEq] at hcons
        have hans : d.answers = false := hcons.1 ▸ hpre x List.mem_cons_self
        refine Or.inr (Or.inl ⟨hs.on,hs.empty,by simp [hs.waits,hans],pre,e,post,hcons.2,he,?_⟩)
        exact fun y hy => hpre y (List.mem_cons_of_mem x hy)
  · refine Or.inr (Or.inr ⟨hs.on,?_⟩)
    have hclient := hs.client
    simp only [clientCompressed,List.any_append] at hclient ⊢
    rw [hclient,Bool.true_or]

/-- A batch in the mode of the session is read as it was meant. -/
theorem decompressIncoming_written {u : Upload} {compressed : Bool} (hu : u.Written tp)
    (hmode : u.compressed = compressed) :
    McbePacketRouter.decompressIncoming tp compressed u.datagram.tail = .ok u.payload := by
  subst hmode
  cases hc : u.compressed with
  | false => simp [McbePacketRouter.decompressIncoming,hu.plain hc]
  | true =>
    obtain ⟨method,body,htail,hbody⟩ := hu.tagged hc
    cases hm : getCompressor ⟨method⟩ with
    | none =>
      rw [hm] at hbody
      simp [McbePacketRouter.decompressIncoming,htail,hm,hbody]
    | some compressor =>
      rw [hm] at hbody
      simp [McbePacketRouter.decompressIncoming,htail,hm,hbody]

theorem Inv.route {l : Link} (h : Inv tp l) {u : Upload} {rest : List Upload} {payload : Bytes}
    (hu : l.toServer = u :: rest)
    (hp : McbePacketRouter.decompressIncoming tp l.world.session.compressionEnabled u.datagram.tail =
      .ok payload) :
    Inv tp { l with toServer := rest, batch := some (parseBatch tp payload) } := by
  have hmem : ∀ v ∈ rest, v ∈ l.toServer := fun v hv => by simp [hu,hv]
  obtain ⟨hmode,hwritten⟩ := h.uploads u (by simp [hu])
  have hpayload : payload = u.payload := by
    rw [decompressIncoming_written hwritten hmode] at hp
    exact (Except.ok.inj hp).symm
  subst hpayload
  refine ⟨h.ready,h.flag,h.mode,h.written,fun v hv => h.uploads v (hmem v hv),?_⟩
  rcases h.phase with hph | hs | hs
  · have hasks : ∀ packets ending, some (parseBatch tp u.payload) = some (packets,ending) →
        u.asks tp = false → ∀ p ∈ packets, p.body.isRequest = false := by
      intro packets ending hb ha p hpm
      have hfst : (parseBatch tp u.payload).1 = packets := by rw [Option.some.inj hb]
      simp only [Upload.asks,hfst,List.any_eq_false,Bool.not_eq_true] at ha
      exact ha p hpm
    have hask : NoAsk tp l → NoAsk tp { l with toServer := rest, batch := some (parseBatch tp u.payload) } :=
      fun hn => ⟨fun packets ending hb => hasks packets ending hb (hn.2 u (by simp [hu])),
        fun v hv => hn.2 v (hmem v hv)⟩
    refine Or.inl ⟨hph.off,fun ha => ⟨hask (hph.calm ha).1,(hph.calm ha).2⟩,hph.one.imp hask id,
      hph.count,fun pre v post hs => ?_,fun packets ending hb ⟨p,hpm,hreq⟩ => ?_⟩
    · exact hph.last (u :: pre) v post (by simpa [hu] using hs)
    · cases hua : u.asks tp with
      | true => exact hph.last [] u rest hu hua
      | false =>
        rw [hasks packets ending hb hua p hpm] at hreq
        cases hreq
  · rw [hs.empty] at hu
    cases hu
  · exact Or.inr (Or.inr ⟨hs.on,hs.client⟩)

theorem inv_step {l l' : Link} (h : Inv tp l) (hs : Step tp l l') : Inv tp l' := by
  cases hs with
  | clientSend u hidle hmode hw => exact h.clientSend hidle hmode hw
  | clientReceive d rest hd => exact h.clientReceive hd
  | route u rest payload hidle hu hp => exact h.route hu hp
  | handled packet packets ending b w hb hr =>
    cases hreq : packet.body.isRequest with
    | true =>
      cases hbody : packet.body with
      | requestNetworkSettings pk =>
        rw [hbody] at hr
        exact h.request hb hbody hr
      | _ => simp [PacketBody.isRequest,hbody,PacketBody.getDef] at hreq
    | false =>
      have hdef : packet.body.getDef ≠ .requestNetworkSettings := by simpa [PacketBody.isRequest] using hreq
      have haccepted : packet.body.isAccepted = false := by
        cases hbody : packet.body <;> simp_all [PacketBody.isAccepted,PacketBody.getDef]
      rw [haccepted]
      refine h.quiet ((NetworkSession.within_handle hdef).ok hr) fun packets' ending' hb' => ?_
      cases b with
      | true => exact ⟨[packet],by simpa [hb] using hb'⟩
      | false => simp at hb'
  | finished hb => exact h.still l.world.server fun packets ending hb' => by simp at hb'
  | tick w hidle hr =>
    exact h.quiet (NetworkSession.within_flush.ok hr) fun packets ending hb => ⟨[],hb⟩
  | send packet immediately w hpacket hr =>
    exact h.quiet ((NetworkSession.within_send hpacket immediately).ok hr) fun packets ending hb => ⟨[],hb⟩
  | others server => exact h.still server fun packets ending hb => ⟨[],hb⟩

theorem inv_reachable {guid : Guid} {server : Server} {l : Link}
    (h : Relation.ReflTransGen (Step tp) (start guid server) l) : Inv tp l := by
  induction h with
  | refl => exact inv_start guid server
  | tail _ hs ih => exact inv_step ih hs

theorem Ready.assigned {s : NetworkSession} (hs : Ready s) :
    s.compressionEnabled = true → s.compressor ≠ none := by
  intro he
  rw [hs.compressor he]
  simp

/-- No handler reads a compressor that was not assigned. -/
theorem handle_assigned {body : PacketBody} {w w' : World} (hw : Ready w.session) :
    NetworkSession.handle tp body w ≠ .error (.undefined .uninitialised) w' := by
  intro hr
  cases hreq : body.isRequest with
  | false =>
    have hdef : body.getDef ≠ .requestNetworkSettings := by simpa [PacketBody.isRequest] using hreq
    exact ((NetworkSession.within_handle hdef).error hr).2 hw.assigned rfl
  | true =>
    cases body with
    | requestNetworkSettings pk =>
      cases hv : isSupportedProtocol pk.protocolVersion with
      | true =>
        obtain ⟨d,-,hrun⟩ := NetworkSession.handleRequestNetworkSettings_supported tp hv
          hw.encryption hw.compressor
        simp [NetworkSession.handle,hrun] at hr
      | false =>
        obtain ⟨packet,d,-,-,hrun⟩ := NetworkSession.handleRequestNetworkSettings_unsupported tp hv
          hw.encryption hw.assigned
        simp [NetworkSession.handle,hrun] at hr
    | _ => simp [PacketBody.isRequest,PacketBody.getDef] at hreq

/-- Whatever the order of sends, deliveries, polls and ticks: every datagram on its way is read in
the mode it was written in, the algorithm byte starts right behind the first settings packet,
and the compressor is never read unassigned. -/
theorem switch_over {guid : Guid} {server : Server} {l : Link}
    (h : Relation.ReflTransGen (Step tp) (start guid server) l) :
    (∀ u ∈ l.toServer, u.compressed = l.world.session.compressionEnabled ∧
      McbePacketRouter.routeSession tp u.datagram.tail l.world = NetworkSession.onRaw tp u.payload l.world) ∧
    (∀ pre d post, l.toClient = pre ++ d :: post →
      d.compressed = (l.received ++ pre).any (fun e => e.settings) ∧ d.Written tp) ∧
    (∀ pre d post, l.received ++ l.toClient = pre ++ d :: post →
      (d.compressed = true ↔ ∃ e ∈ pre, e.settings = true)) ∧
    (∀ payload w, NetworkSession.sendInternal tp payload l.world ≠ .error (.undefined .uninitialised) w) ∧
    (∀ body w, NetworkSession.handle tp body l.world ≠ .error (.undefined .uninitialised) w) ∧
    ∀ w, NetworkSession.tick tp l.world ≠ .error (.undefined .uninitialised) w := by
  have hi := inv_reachable h
  have hmode : ∀ pre d post, l.received ++ l.toClient = pre ++ d :: post →
      d.compressed = pre.any fun e => e.settings := fun pre d post hs => by
    simpa using inMode_split hi.mode hs
  refine ⟨fun u hu => ?_,fun pre d post hs => ?_,fun pre d post hs => ?_,fun payload w hr => ?_,
    fun body w => handle_assigned hi.ready,fun w hr => ?_⟩
  · obtain ⟨hu,hw⟩ := hi.uploads u hu
    exact ⟨hu,McbePacketRouter.routeSession_unencrypted hi.ready.encryption hw.long
      (decompressIncoming_written hw hu)⟩
  · exact ⟨hmode (l.received ++ pre) d post (by simp [hs]),hi.written d (by simp [hs])⟩
  · rw [hmode pre d post hs]
    simp
  · cases hout : NetworkSession.compressOutgoing tp l.world.session payload with
    | ok out =>
      rw [NetworkSession.sendInternal_plain hi.ready.encryption hout] at hr
      cases hr
    | error e =>
      simp only [NetworkSession.sendInternal,bind_apply,getSession_apply,hout,fromExcept_error,
        EStateM.Result.error.injEq] at hr
      exact NetworkSession.compressOutgoing_error hout hi.ready.assigned hr.1
  · exact (NetworkSession.within_flush.error hr).2 hi.ready.assigned rfl

theorem switch_over_request :
    ∃ l, Relation.ReflTransGen (Step .failing) (start 7 .bare) l ∧
      l.world.session.compressionEnabled = true ∧ l.toClient.length = 1 ∧
      ∀ pre d post, l.toClient = pre ++ d :: post →
        d.compressed = (l.received ++ pre).any (fun e => e.settings) ∧ d.Written .failing := by
  let payload : Bytes := [6,0xC1,0x01,0,0,3,0x9C]
  let u : Upload := ⟨0xFE :: payload,payload,false⟩
  have hwritten : u.Written .failing := ⟨by decide,fun _ => rfl,fun h => by simp [u] at h⟩
  have hparse : parseBatch .failing payload =
      ([{ body := .requestNetworkSettings { protocolVersion := 924 } }],none) := by decide +kernel
  obtain ⟨d,-,hrun⟩ := NetworkSession.handleRequestNetworkSettings_supported .failing
    (w:=(start 7 .bare).world) (show isSupportedProtocol 924 = true by decide) rfl
    (fun h => by simp [start] at h)
  have h1 := Relation.ReflTransGen.single (Step.clientSend (start 7 .bare) u rfl rfl hwritten)
  have h2 := h1.tail (Step.route _ u [] payload rfl rfl rfl)
  have h3 := h2.tail (Step.handled _ _ _ _ true _ (congrArg some hparse) hrun)
  exact ⟨_,h3,rfl,by simp [downloads,start,Server.bare],fun pre d post hs => (switch_over h3).2.1 pre d post hs⟩

end Link

end CyrexMC
