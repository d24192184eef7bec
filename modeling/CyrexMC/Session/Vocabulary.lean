import CyrexMC.Lib.Runs
import CyrexMC.Session.Clients
set_option autoImplicit false

namespace CyrexMC
open History

/-- The packets there are to say, but for the world template: what a client sends only chooses among them. -/
inductive Vocabulary (tp : ThirdParty) (server : Server) : Packet → Prop where
  | settings : Vocabulary tp server { body := .networkSettings NetworkSession.networkSettings }
  | refusal (version : UInt32) : Vocabulary tp server (NetworkSession.refusal version)
  | success : Vocabulary tp server NetworkSession.loginSuccess
  | packs : Vocabulary tp server { body := .resourcePacksInfo (server.packsInfo tp) }
  | announcement {id : UUID} {info : ResourcePackDataInfoPacket}
      (h : NetworkSession.infoOf tp server.factory id = some info) :
      Vocabulary tp server (NetworkSession.dataInfo info)
  | chunk {r : UUID × Int} (h : server.factory.Has r) : Vocabulary tp server (server.factory.chunkOf r)
  | stack : Vocabulary tp server { body := .resourcePackStack (server.packStack tp) }

def Packet.chunkKey? (packet : Packet) : Option (UUID × Int) :=
  match packet.body with
  | .resourcePackChunkData pk => some (pk.packId,pk.chunkIndex)
  | _ => none

def chunkKeys (lines : List Line) : List (UUID × Int) := (lines.flatMap Line.packets).filterMap Packet.chunkKey?

@[simp] theorem chunkKeys_append (lines lines' : List Line) :
    chunkKeys (lines ++ lines') = chunkKeys lines ++ chunkKeys lines' := by
  simp [chunkKeys]

theorem NetworkSession.infosFor_known {tp : ThirdParty} {f : ResourcePackFactory}
    {entries : List ResourcePackClientResponsePacket.Entry} {info : ResourcePackDataInfoPacket}
    (h : info ∈ infosFor tp f entries) : ∃ id, infoOf tp f id = some info := by
  induction entries with
  | nil => cases h
  | cons entry entries ih =>
    unfold infosFor at h
    cases hinfo : infoOf tp f entry.uuid with
    | none => simp [hinfo] at h
    | some info' =>
      simp only [hinfo,List.mem_cons] at h
      rcases h with rfl | h
      · exact ⟨entry.uuid,hinfo⟩
      · exact ih h

def Packet.isSettings (packet : Packet) : Bool := packet.body.getDef = .networkSettings

def Server.welcome (tp : ThirdParty) (server : Server) : List Packet :=
  [NetworkSession.loginSuccess,{ body := .resourcePacksInfo (server.packsInfo tp) }]

namespace Line

inductive Shaped (tp : ThirdParty) (server : Server) (line : Line) : Prop where
  | one {packet : Packet} (h : line.packets = [packet]) (hpacket : Vocabulary tp server packet) : Shaped tp server line
  | welcome (hne : line.packets ≠ []) (h : ∀ packet ∈ line.packets, packet ∈ server.welcome tp) : Shaped tp server line

def settles (line : Line) : Bool := line.packets.any Packet.isSettings

end Line

variable {tp : ThirdParty} {server : Server}

theorem Vocabulary.welcome {packet : Packet} (h : packet ∈ server.welcome tp) : Vocabulary tp server packet := by
  simp only [Server.welcome,List.mem_cons,List.not_mem_nil,or_false] at h
  rcases h with rfl | rfl
  · exact .success
  · exact .packs

theorem Server.plain_welcome {packet : Packet} (h : packet ∈ server.welcome tp) :
    packet.chunkKey? = none ∧ packet.isSettings = false := by
  simp only [welcome,List.mem_cons,List.not_mem_nil,or_false] at h
  rcases h with rfl | rfl <;> exact ⟨rfl,rfl⟩

theorem Line.Shaped.known {line : Line} (h : line.Shaped tp server) :
    ∀ packet ∈ line.packets, Vocabulary tp server packet := by
  intro packet hmem
  cases h with
  | one heq hpacket =>
    rw [heq,List.mem_singleton] at hmem
    rw [hmem]
    exact hpacket
  | welcome hne hall => exact .welcome (hall packet hmem)

/-- What is said in one session: each chunk once, and compressed from the settings on. -/
structure Dialogue.Proper (tp : ThirdParty) (server : Server) (d : Dialogue) : Prop where
  shaped : ∀ line ∈ d.lines, line.Shaped tp server
  waiting : ∀ packet ∈ d.waiting, packet ∈ server.welcome tp
  chunks : chunkKeys d.lines = d.served
  nodup : d.served.Nodup
  switched : d.compressed = d.lines.any Line.settles
  modes : Always (fun pre line => line.compressed = pre.any Line.settles) d.lines

namespace Dialogue.Proper

variable {d : Dialogue}

theorem start : Proper tp server {} :=
  ⟨fun _ hline => (List.not_mem_nil hline).elim,fun _ hpacket => (List.not_mem_nil hpacket).elim,rfl,List.nodup_nil,rfl,
    always_nil⟩

theorem mark (h : d.Proper tp server) (leaving : Bool) : Proper tp server { d with leaving } :=
  ⟨h.shaped,h.waiting,h.chunks,h.nodup,h.switched,h.modes⟩

theorem line (h : d.Proper tp server) {packets : List Packet} {compressed leaving : Bool} {served : List (UUID × Int)}
    (hshaped : Line.Shaped tp server ⟨d.compressed,packets⟩)
    (hserved : served = d.served ++ packets.filterMap Packet.chunkKey?) (hnodup : served.Nodup)
    (hmode : compressed = (d.compressed || packets.any Packet.isSettings)) :
    Proper tp server { d.say packets with compressed, leaving, served } := by
  constructor
  · intro line hline
    rcases List.mem_append.mp hline with hline | hline
    · exact h.shaped line hline
    · rw [List.mem_singleton.mp hline]
      exact hshaped
  · exact h.waiting
  · rw [hserved,← h.chunks]
    simp [Dialogue.say,chunkKeys]
  · exact hnodup
  · simp only [Dialogue.say,List.any_append,List.any_cons,List.any_nil,Bool.or_false,← h.switched]
    exact hmode
  · exact always_concat.mpr ⟨h.modes,h.switched⟩

theorem say (h : d.Proper tp server) {packet : Packet} (hpacket : Vocabulary tp server packet)
    (hplain : packet.chunkKey? = none ∧ packet.isSettings = false) : (d.say [packet]).Proper tp server :=
  h.line (.one rfl hpacket) (by simp [hplain.1]) h.nodup (by simp [hplain.2])

theorem sayEach (h : d.Proper tp server) {packets : List Packet}
    (hall : ∀ packet ∈ packets, Vocabulary tp server packet ∧ packet.chunkKey? = none ∧ packet.isSettings = false) :
    (d.sayEach packets).Proper tp server := by
  induction packets generalizing d with
  | nil => simpa [Dialogue.sayEach] using h
  | cons packet packets ih =>
    obtain ⟨hpacket,hplain⟩ := hall packet (List.mem_cons_self ..)
    have hrest := ih (h.say hpacket hplain) fun packet' hpacket' => hall packet' (List.mem_cons_of_mem _ hpacket')
    simpa [Dialogue.sayEach,Dialogue.say] using hrest

theorem respond (h : d.Proper tp server) (pk : ResourcePackClientResponsePacket) :
    (d.respond tp server pk).Proper tp server := by
  unfold Dialogue.respond
  split
  · exact h.mark _
  · split
    · refine (h.sayEach fun packet hpacket => ?_).mark _
      obtain ⟨info,hinfo,rfl⟩ := List.mem_map.mp hpacket
      obtain ⟨id,hid⟩ := NetworkSession.infosFor_known hinfo
      exact ⟨.announcement hid,rfl,rfl⟩
    · split
      · exact h.say .stack ⟨rfl,rfl⟩
      · exact h

theorem serve (h : d.Proper tp server) (r : UUID × Int) : (d.serve server r).Proper tp server := by
  unfold Dialogue.serve
  split
  · exact h.mark true
  · split
    · rename_i hnew
      refine h.line (.one rfl (.chunk hnew.1)) rfl ?_ (Bool.or_false _).symm
      exact List.nodup_append.mpr ⟨h.nodup,List.nodup_singleton r,fun x hx y hy heq => by
        rw [List.mem_singleton.mp hy] at heq
        exact hnew.2 (heq ▸ hx)⟩
    · exact h

theorem hear (h : d.Proper tp server) (body : PacketBody) : (d.hear tp server body).Proper tp server := by
  cases body with
  | requestNetworkSettings pk =>
    simp only [Dialogue.hear]
    split
    · exact h.line (.one rfl .settings) (List.append_nil _).symm h.nodup (Bool.or_true _).symm
    · exact h.say (.refusal pk.protocolVersion) ⟨rfl,rfl⟩
  | login pk =>
    simp only [Dialogue.hear]
    split
    · refine ⟨h.shaped,fun packet hpacket => ?_,h.chunks,h.nodup,h.switched,h.modes⟩
      exact (List.mem_append.mp hpacket).elim (h.waiting packet) id
    · exact h.say (.refusal pk.protocol) ⟨rfl,rfl⟩
  | resourcePackClientResponse pk => exact h.respond pk
  | resourcePackChunkRequest pk => exact h.serve (pk.packId,pk.chunkIndex)
  | _ => exact h

theorem receive (h : d.Proper tp server) (data : Bytes) : (d.receive tp server data).Proper tp server := by
  have hall : ∀ (packets : List Packet) (d : Dialogue), d.Proper tp server →
      (d.hearAll tp server packets).Proper tp server := by
    intro packets
    induction packets with
    | nil => exact fun d hd => hd
    | cons packet packets ih =>
      intro d hd
      simp only [Dialogue.hearAll]
      split
      · exact ih _ (hd.hear packet.body)
      · exact hd.hear packet.body
  unfold Dialogue.receive
  split
  · exact h
  · split
    · exact hall _ d h
    · exact h

theorem tick (h : d.Proper tp server) : d.tick.Proper tp server := by
  unfold Dialogue.tick
  split
  · exact h
  · rename_i hne
    have hplain : d.waiting.filterMap Packet.chunkKey? = [] ∧ d.waiting.any Packet.isSettings = false := by
      refine ⟨List.filterMap_eq_nil_iff.mpr fun packet hpacket => (Server.plain_welcome (h.waiting packet hpacket)).1,?_⟩
      rw [List.any_eq_false]
      intro packet hpacket
      simp [(Server.plain_welcome (h.waiting packet hpacket)).2]
    have hline : (d.say d.waiting).Proper tp server :=
      h.line (.welcome (by simpa using hne) h.waiting) (by simp [hplain.1]) h.nodup (by simp [hplain.2])
    exact ⟨hline.shaped,fun _ hpacket => (List.not_mem_nil hpacket).elim,hline.chunks,hline.nodup,hline.switched,hline.modes⟩

end Dialogue.Proper

def connects (tp : ThirdParty) (packets : List RakNetPacket) : Nat := packets.countP fun packet => packet.event tp = .connect

/-- What is said to a client that connects at most `n` times: a chunk once for each of them. -/
structure Client.Bounded (tp : ThirdParty) (server : Server) (n : Nat) (c : Client) : Prop where
  said : ∀ line ∈ c.past, ∀ packet ∈ line.packets, Vocabulary tp server packet
  dialogue : ∀ d ∈ c.dialogue, d.Proper tp server
  chunks : ∀ r, (chunkKeys c.past).count r + c.dialogue.toList.length ≤ n

namespace Client.Bounded

variable {n : Nat} {c : Client}

theorem start : Bounded tp server 0 {} :=
  ⟨fun _ hline => (List.not_mem_nil hline).elim,fun _ hd => (Option.not_mem_none _ hd).elim,fun _ => Nat.le_refl 0⟩

theorem map (h : c.Bounded tp server n) {f : Dialogue → Dialogue}
    (hf : ∀ d, d.Proper tp server → (f d).Proper tp server) :
    Bounded tp server n { c with dialogue := c.dialogue.map f } := by
  refine ⟨h.said,fun d hd => ?_,fun r => ?_⟩
  · obtain ⟨d',hd',rfl⟩ := Option.mem_map.mp hd
    exact hf d' (h.dialogue d' hd')
  · have hcount := h.chunks r
    cases hdialogue : c.dialogue with
    | none => simpa [hdialogue] using hcount
    | some d => simpa [hdialogue] using hcount

theorem connect (h : c.Bounded tp server n) :
    Bounded tp server (n + 1) { c with dialogue := some (c.dialogue.getD {}) } := by
  refine ⟨h.said,fun d hd => ?_,fun r => ?_⟩
  · rw [Option.mem_some] at hd
    subst hd
    cases hdialogue : c.dialogue with
    | none => exact .start
    | some d => exact h.dialogue d hdialogue
  · have hcount := h.chunks r
    simp only [Option.toList_some,List.length_singleton]
    omega

theorem packet (h : c.Bounded tp server n) (packet : RakNetPacket) :
    Bounded tp server (n + connects tp [packet]) (c.packet tp server packet) := by
  unfold Client.packet
  cases he : packet.event tp with
  | connect =>
    simp only [connects,List.countP_singleton,he,decide_true,if_true]
    exact h.connect
  | disconnect =>
    simp only [connects,List.countP_singleton,he,reduceCtorEq,decide_false,Bool.false_eq_true,if_false]
    exact h.map fun d hd => hd.mark true
  | data =>
    simp only [connects,List.countP_singleton,he,reduceCtorEq,decide_false,Bool.false_eq_true,if_false]
    exact h.map fun d hd => hd.receive packet.data.tail
  | ignored =>
    simp only [connects,List.countP_singleton,he,reduceCtorEq,decide_false,Bool.false_eq_true,if_false]
    exact h

theorem lines (h : c.Bounded tp server n) :
    (∀ line ∈ c.lines, ∀ packet ∈ line.packets, Vocabulary tp server packet) ∧ ∀ r, (chunkKeys c.lines).count r ≤ n := by
  unfold Client.lines
  cases hdialogue : c.dialogue with
  | none =>
    have hchunks := h.chunks
    simp only [hdialogue,Option.toList_none,List.length_nil,Nat.add_zero] at hchunks
    simp only [Option.map_none,Option.getD_none,List.append_nil]
    exact ⟨h.said,hchunks⟩
  | some d =>
    have hd := h.dialogue d hdialogue
    refine ⟨fun line hline => ?_,fun r => ?_⟩
    · rcases List.mem_append.mp hline with hline | hline
      · exact h.said line hline
      · exact (hd.shaped line hline).known
    · have hcount := h.chunks r
      have honce := List.nodup_iff_count_le_one.mp hd.nodup r
      simp only [hdialogue,Option.toList_some,List.length_singleton] at hcount
      simp only [Option.map_some,Option.getD_some,chunkKeys_append,hd.chunks,List.count_append]
      omega

theorem cleanup (h : c.Bounded tp server n) : c.cleanup.Bounded tp server n := by
  unfold Client.cleanup
  split
  · exact ⟨h.lines.1,fun _ hd => (Option.not_mem_none _ hd).elim,fun r => h.lines.2 r⟩
  · exact h

theorem poll (h : c.Bounded tp server n) (packets : List RakNetPacket) :
    Bounded tp server (n + connects tp packets) (c.poll tp server packets) := by
  have hfold : Bounded tp server (n + connects tp packets) (packets.foldl (Client.packet tp server) c) := by
    induction packets generalizing c n with
    | nil => exact h
    | cons packet packets ih =>
      have hrest := ih (h.packet packet)
      rw [Nat.add_assoc] at hrest
      have hsum : connects tp ([packet] ++ packets) = connects tp [packet] + connects tp packets := List.countP_append
      rw [← hsum] at hrest
      exact hrest
  exact (hfold.map fun d hd => hd.tick).cleanup

theorem polls (schedule : List (List RakNetPacket)) :
    Bounded tp server (connects tp schedule.flatten) (Client.polls tp server schedule) := by
  induction schedule using List.reverseRecOn with
  | nil => exact .start
  | append_singleton schedule packets ih =>
    have hnext := ih.poll packets
    have hsum : connects tp (schedule ++ [packets]).flatten = connects tp schedule.flatten + connects tp packets := by
      simp [connects]
    rw [hsum]
    simpa [Client.polls] using hnext

end Client.Bounded

namespace RaknetHandler

/-- Whatever the clients send: nothing but the known packets is said to any of them, and a chunk no more often than the
client connects. -/
theorem clients_told (hready : server.factory.Ready tp)
    (hstreams : ∀ p ∈ server.factory.packs, p.fileStream.failbit = false)
    (hcounted : ∀ p ∈ server.factory.packs, p.Counted server.factory.maxChunkSize)
    (hcat : server.factory.Catalogued tp) (hdeflates : Deflates tp) (hnone : server.sent = [])
    {schedule : List (List RakNetPacket)} {h : RaknetHandler}
    (hr : polls tp schedule { connections := .empty, server } = .ok () h) (g : Guid) :
    ∃ lines, List.Forall₂ (Says tp g) lines (h.server.sentTo g) ∧
      (∀ line ∈ lines, ∀ packet ∈ line.packets, Vocabulary tp server packet) ∧
      ∀ r, (chunkKeys lines).count r ≤ connects tp (packetsOf g schedule.flatten) := by
  have ha := (Attends.start hstreams hnone).polls hready hcounted hcat hdeflates hr (g:=g)
  have hbounded : Client.Bounded tp server _ (Client.polls tp server (schedule.map (packetsOf g))) := .polls _
  refine ⟨_,ha.lines,hbounded.lines.1,fun r => ?_⟩
  have hflat : (schedule.map (packetsOf g)).flatten = packetsOf g schedule.flatten := by
    exact List.filter_flatten.symm
  rw [← hflat]
  exact hbounded.lines.2 r

theorem clients_told_twoPacks :
    let connect : RakNetPacket := { guid := 7, data := [19], random := fun _ => UUID.nil }
    let leave : RakNetPacket := { guid := 7, data := [21], random := fun _ => UUID.nil }
    let request := chunkRequest 7 (.filled 1) 0
    let schedule := [[connect,request,request,leave],[connect,request]]
    ∃ h, polls .rawIds schedule { connections := .empty, server := .twoPacks } = .ok () h ∧
      (h.server.sentTo 7).length = 2 ∧
      ∃ lines, List.Forall₂ (Says .rawIds 7) lines (h.server.sentTo 7) ∧
        (∀ line ∈ lines, ∀ packet ∈ line.packets, Vocabulary .rawIds .twoPacks packet) ∧
        ∀ r, (chunkKeys lines).count r ≤ connects .rawIds (packetsOf 7 schedule.flatten) := by
  intro connect leave request schedule
  have hends : endsWith (polls .rawIds schedule) (fun h => (h.server.sentTo 7).length = 2)
      { connections := .empty, server := .twoPacks } = true := by decide +kernel
  obtain ⟨h,hr,htwo⟩ := exists_of_endsWith hends
  exact ⟨h,hr,by simpa using htwo,clients_told Server.twoPacks_prepared.ready Server.twoPacks_prepared.streams
    Server.twoPacks_counted twoPacks_catalogued deflates_rawIds rfl hr 7⟩

end RaknetHandler

end CyrexMC
