import CyrexMC.Lib.Outbox
import CyrexMC.Session.Serving
set_option autoImplicit false

/-! The send queue of a session and the datagrams it becomes, over runs of the calls that fill and
empty it. -/

namespace CyrexMC
open Stateful Outbox

inductive SendCall where
  | send : Packet → Bool → SendCall
  | sendBatch : List Packet → Bool → SendCall
  | flush
  | tick

namespace SendCall

def call (tp : ThirdParty) : SendCall → SessionM Unit
  | .send packet immediately => NetworkSession.send tp packet immediately
  | .sendBatch packets immediately => NetworkSession.sendBatch tp packets immediately
  | .flush => NetworkSession.flush tp
  | .tick => NetworkSession.tick tp

def run (tp : ThirdParty) : List SendCall → SessionM Unit
  | [] => return ()
  | c :: calls => do
    c.call tp
    run tp calls

def packets : SendCall → List Packet
  | .send packet _ => [packet]
  | .sendBatch packets _ => packets
  | .flush | .tick => []

def op : SendCall → Op Packet
  | .send packet true => .pass [packet]
  | .send packet false => .post [packet]
  | .sendBatch packets true => .pass packets
  | .sendBatch packets false => .post packets
  | .flush | .tick => .flush

end SendCall

variable {tp : ThirdParty}

theorem encode_of_none {packet : Packet} (h : packet.body.encodePayload tp = none) : packet.encode tp = [] := by
  rw [Packet.encode,h]

theorem flatMap_encode (packets : List Packet) :
    packets.flatMap (fun packet => packet.encode tp) =
      (packets.filter fun packet => (packet.body.encodePayload tp).isSome).flatMap fun packet => packet.encode tp := by
  induction packets with
  | nil => rfl
  | cons packet packets ih =>
    cases h : packet.body.encodePayload tp with
    | none => simp [ih,h,encode_of_none h]
    | some payload => simp [ih,h]

/-- The session is that of `w₀` but for its queue, and each parcel has become a datagram. -/
structure Mirrors (tp : ThirdParty) (w₀ w : World) (s : Outbox.State Packet) : Prop where
  session : w.session = { w₀.session with sendQueue := s.queue }
  sent : ∃ datagrams : List Bytes,
    w.server = { w₀.server with sent := w₀.server.sent ++ datagrams.map (w₀.session.guid,·) } ∧
      List.Forall₂ (fun parcel d => Wraps tp w₀.session parcel.items d) s.sent datagrams

def CallDone (tp : ThirdParty) (c : SendCall) (u v : World) : Prop :=
  match c.op with
  | .post items => v = { u with session := { u.session with sendQueue := u.session.sendQueue ++ items } }
  | .pass items => v.session = u.session ∧
      ∃ d, Wraps tp u.session items d ∧ v.server.sent = u.server.sent ++ [(u.session.guid,d)]
  | .flush => v.session.sendQueue = [] ∧
      (u.session.sendQueue = [] → v = u) ∧
      (u.session.sendQueue ≠ [] →
        ∃ d, Wraps tp u.session u.session.sendQueue d ∧ v.server.sent = u.server.sent ++ [(u.session.guid,d)])

section

variable {w₀ w : World} {s : Outbox.State Packet} (hplain : w₀.session.encryptionEnabled = false)
  (hreturns : ∀ payload, ∃ out, NetworkSession.compressOutgoing tp w₀.session payload = .ok out)

include hplain hreturns

theorem Mirrors.sendInternal (h : Mirrors tp w₀ w s) (packets : List Packet) (queued : Bool) :
    ∃ d, Wraps tp w.session packets d ∧
      NetworkSession.sendInternal tp (packets.flatMap fun packet => packet.encode tp) w =
        .ok () { w with server := { w.server with sent := w.server.sent ++ [(w.session.guid,d)] } } ∧
      Mirrors tp w₀ { w with server := { w.server with sent := w.server.sent ++ [(w.session.guid,d)] } }
        { s with sent := s.sent ++ [⟨packets,queued⟩] } := by
  obtain ⟨hsession,datagrams,hserver,hwraps⟩ := h
  obtain ⟨out,hout⟩ := hreturns (packets.flatMap fun packet => packet.encode tp)
  have hsame : NetworkSession.compressOutgoing tp w.session (packets.flatMap fun packet => packet.encode tp) = .ok out := by
    rw [← hout,hsession]
    rfl
  have hguid : w.session.guid = w₀.session.guid := by rw [hsession]
  refine ⟨0xFE :: out,⟨out,hsame,rfl⟩,NetworkSession.sendInternal_plain (by rw [hsession]; exact hplain) hsame,
    hsession,datagrams ++ [0xFE :: out],?_,?_⟩
  · simp [hserver,hguid]
  · exact List.rel_append hwraps (.cons ⟨out,hout,rfl⟩ .nil)

theorem Mirrors.flush (h : Mirrors tp w₀ w s) : ∃ w', NetworkSession.flush tp w = .ok () w' ∧
    CallDone tp .flush w w' ∧ Mirrors tp w₀ w' (step s .flush) := by
  have hqueue : w.session.sendQueue = s.queue := by rw [h.session]
  by_cases hempty : s.queue = []
  · have hrun : NetworkSession.flush tp w = .ok () w := by
      simp [NetworkSession.flush,bind_apply,hqueue,hempty]
    have hstep : step s .flush = s := by simp [step,hempty]
    refine ⟨w,hrun,⟨hqueue.trans hempty,fun _ => rfl,fun hne => absurd (hqueue.trans hempty) hne⟩,?_⟩
    rw [hstep]
    exact h
  · obtain ⟨d,hd,hsend,hmirrors⟩ := h.sendInternal hplain hreturns w.session.sendQueue true
    have hrun : NetworkSession.flush tp w = .ok ()
        { session := { w.session with sendQueue := [] },
          server := { w.server with sent := w.server.sent ++ [(w.session.guid,d)] } } := by
      have hmore : w.session.sendQueue.isEmpty = false := by
        rw [hqueue]
        simp [hempty]
      simp only [NetworkSession.flush,bind_apply,getSession_apply,hmore,Bool.false_eq_true,if_false,hsend,
        modifySession_apply]
    have hstep : step s .flush = { queue := [], sent := s.sent ++ [⟨s.queue,true⟩] } := by simp [step,hempty]
    refine ⟨_,hrun,⟨rfl,fun hnil => absurd (hqueue.symm.trans hnil) hempty,fun _ => ⟨d,hd,rfl⟩⟩,?_⟩
    rw [hstep,← hqueue]
    refine ⟨?_,hmirrors.sent⟩
    rw [h.session]

omit hplain hreturns in
theorem Mirrors.post (h : Mirrors tp w₀ w s) (packets : List Packet) :
    Mirrors tp w₀ { w with session := { w.session with sendQueue := w.session.sendQueue ++ packets } }
      (step s (.post packets)) := by
  refine ⟨?_,h.sent⟩
  simp only [h.session,step]

theorem Mirrors.call (h : Mirrors tp w₀ w s) (c : SendCall) :
    ∃ w', c.call tp w = .ok () w' ∧ CallDone tp c w w' ∧ Mirrors tp w₀ w' (step s c.op) := by
  cases c with
  | send packet immediately =>
    cases immediately with
    | false => exact ⟨_,rfl,rfl,h.post [packet]⟩
    | true =>
      obtain ⟨d,hd,hsend,hmirrors⟩ := h.sendInternal hplain hreturns [packet] false
      have hcall : SendCall.call tp (.send packet true) w =
          .ok () { w with server := { w.server with sent := w.server.sent ++ [(w.session.guid,d)] } } := by
        simpa [SendCall.call,NetworkSession.send] using hsend
      exact ⟨_,hcall,⟨rfl,d,hd,rfl⟩,hmirrors⟩
  | sendBatch packets immediately =>
    cases immediately with
    | false => exact ⟨_,rfl,rfl,h.post packets⟩
    | true =>
      obtain ⟨d,hd,hsend,hmirrors⟩ := h.sendInternal hplain hreturns packets false
      exact ⟨_,hsend,⟨rfl,d,hd,rfl⟩,hmirrors⟩
  | flush => exact h.flush hplain hreturns
  | tick => exact h.flush hplain hreturns

/-- A run of calls does to the session what their operations do to the outbox. -/
theorem Mirrors.run (h : Mirrors tp w₀ w s) (calls : List SendCall) :
    ∃ w', SendCall.run tp calls w = .ok () w' ∧ Mirrors tp w₀ w' (Outbox.run s (calls.map SendCall.op)) := by
  induction calls generalizing w s with
  | nil => exact ⟨w,rfl,h⟩
  | cons c calls ih =>
    obtain ⟨u,hcall,-,hu⟩ := h.call hplain hreturns c
    obtain ⟨v,hrun,hv⟩ := ih hu
    exact ⟨v,(bind_ok hcall).trans hrun,hv⟩

end

theorem op_packets (c : SendCall) : c.op.posted ++ c.op.passed.toList.flatten = c.packets := by
  cases c with
  | send packet immediately => cases immediately <;> simp [SendCall.op,Op.posted,Op.passed,SendCall.packets]
  | sendBatch packets immediately => cases immediately <;> simp [SendCall.op,Op.posted,Op.passed,SendCall.packets]
  | flush => rfl
  | tick => rfl

theorem packets_perm (calls : List SendCall) :
    ((calls.map SendCall.op).flatMap Op.posted ++ ((calls.map SendCall.op).filterMap Op.passed).flatten).Perm
      (calls.flatMap SendCall.packets) := by
  induction calls with
  | nil => exact .nil
  | cons c calls ih =>
    have hc := op_packets c
    simp only [List.map_cons,List.flatMap_cons,List.filterMap_cons,← hc]
    cases hop : c.op.passed with
    | none => simpa using ih.append_left _
    | some items =>
      simp only [Option.toList_some,List.flatten_cons,List.flatten_nil,List.append_nil,List.append_assoc]
      refine List.Perm.append_left _ ?_
      refine List.Perm.trans ?_ (List.Perm.append_left items ih)
      rw [← List.append_assoc,← List.append_assoc]
      exact List.perm_append_comm.append_right _

/-- What has become of the packets of a run of calls: each parcel is a datagram of the frames of its
packets, and each packet is in one parcel. -/
structure Delivered (tp : ThirdParty) (w₀ : World) (calls : List SendCall) (w : World) (parcels : List (Parcel Packet)) :
    Prop where
  datagrams : ∃ datagrams : List Bytes,
    w.server.sent = w₀.server.sent ++ datagrams.map (w₀.session.guid,·) ∧
      List.Forall₂ (fun parcel d => Wraps tp w₀.session parcel.items d) parcels datagrams
  once : (parcels.flatMap Parcel.items).Perm (w₀.session.sendQueue ++ calls.flatMap SendCall.packets)
  queued : (parcels.filter fun p => p.queued).flatMap Parcel.items =
    w₀.session.sendQueue ++ calls.flatMap fun c => c.op.posted
  immediate : (parcels.filter fun p => !p.queued).map Parcel.items = calls.filterMap fun c => c.op.passed
  frames : ∀ parcel ∈ parcels, parcel.items.flatMap (fun packet => packet.encode tp) =
    (parcel.items.filter fun packet => (packet.body.encodePayload tp).isSome).flatMap fun packet => packet.encode tp
  empty : w.session.sendQueue = []

theorem mirrors_start (w : World) : Mirrors tp w w { queue := w.session.sendQueue } :=
  ⟨rfl,[],by simp,.nil⟩

/-- From any run of calls, followed by a flush, every queued packet is in one datagram behind those
queued before it, an immediate call makes a datagram of its own, and the queue ends empty. -/
theorem send_order (hdeflates : Deflates tp) {w₀ : World} (hplain : w₀.session.encryptionEnabled = false)
    (hmode : w₀.session.compressionEnabled = true → w₀.session.compressor ≠ none) (calls : List SendCall) :
    (∃ w parcels, SendCall.run tp (calls ++ [.flush]) w₀ = .ok () w ∧ Delivered tp w₀ calls w parcels) ∧
    ∀ pre c post, calls ++ [.flush] = pre ++ c :: post →
      ∃ u v, SendCall.run tp pre w₀ = .ok () u ∧ c.call tp u = .ok () v ∧ CallDone tp c u v := by
  have hreturns := NetworkSession.compressOutgoing_ok hdeflates hmode
  constructor
  · obtain ⟨w,hrun,hw⟩ := (mirrors_start w₀).run hplain hreturns (calls ++ [.flush])
    rw [List.map_append,List.map_singleton] at hw
    obtain ⟨hempty,hflushed,hpassed⟩ :=
      run_flush ({ queue := w₀.session.sendQueue } : Outbox.State Packet) (calls.map SendCall.op)
    change Mirrors tp w₀ w (Outbox.run { queue := w₀.session.sendQueue } (calls.map SendCall.op ++ [Op.flush])) at hw
    generalize Outbox.run { queue := w₀.session.sendQueue } (calls.map SendCall.op ++ [Op.flush]) = s at *
    obtain ⟨datagrams,hserver,hwraps⟩ := hw.sent
    have hperm := sent_perm s
    rw [hflushed,hpassed] at hperm
    refine ⟨w,s.sent,hrun,⟨datagrams,by rw [hserver],hwraps⟩,?_,?_,?_,fun parcel _ => flatMap_encode parcel.items,?_⟩
    · have hcalls := List.Perm.append_left w₀.session.sendQueue (packets_perm calls)
      simpa [State.flushed,State.passed] using hperm.trans (by simpa [State.flushed,State.passed] using hcalls)
    · simpa [State.flushed,List.flatMap_map] using hflushed
    · simpa [State.passed,List.filterMap_map,Function.comp_def] using hpassed
    · rw [hw.session]
      exact hempty
  · intro pre c post _
    obtain ⟨u,hrun,hu⟩ := (mirrors_start w₀).run hplain hreturns pre
    obtain ⟨v,hcall,hdone,-⟩ := hu.call hplain hreturns c
    exact ⟨u,v,hrun,hcall,hdone⟩

theorem send_order_three :
    let w₀ : World := { session := { guid := 7 }, server := .bare }
    let calls : List SendCall :=
      [.send { body := .clientToServerHandshake } false,.sendBatch [{ body := .clientCacheStatus {} }] true,
       .send { body := .requestNetworkSettings {} } false]
    ∃ w parcels, SendCall.run .storing (calls ++ [.flush]) w₀ = .ok () w ∧ Delivered .storing w₀ calls w parcels := by
  intro w₀ calls
  have hdeflates : Deflates .storing := fun input => List.cons_ne_nil 1 input
  exact (send_order hdeflates (show w₀.session.encryptionEnabled = false from rfl) (fun hmode => by cases hmode) calls).1

end CyrexMC
