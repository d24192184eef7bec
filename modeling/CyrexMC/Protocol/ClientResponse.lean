import CyrexMC.Protocol.RoundTrip
import CyrexMC.ThirdParty
set_option autoImplicit false

namespace CyrexMC
open BinaryReader BinaryWriter

variable {tp : ThirdParty}

theorem findIdx?_separator {front rest : Bytes} {c : UInt8} (h : c ∉ front) :
    (front ++ c :: rest).findIdx? (· == c) = some front.length := by
  induction front with
  | nil => simp [List.findIdx?_cons]
  | cons b front ih =>
    rw [List.mem_cons,not_or] at h
    have hb : (b == c) = false := by simpa using Ne.symm h.1
    simp [List.findIdx?_cons,hb,ih h.2]

theorem fromString_ok {str : Bytes} {id : UUID} (h : tp.uuidFromString str = some id) :
    fromString tp str = .done id := by
  simp only [fromString,h]

namespace ResourcePackClientResponsePacket

/-- What stands at one place of the list: a pack and its version, or a string that names none. -/
inductive Slot where
  | pack : Entry → Slot
  | other : Bytes → Slot

def Slot.text (tp : ThirdParty) : Slot → Bytes
  | .pack entry => tp.uuidToString entry.uuid ++ 0x5F :: entry.version
  | .other str => str

def Slot.entry : Slot → Entry
  | .pack entry => entry
  | .other _ => {}

structure Slot.Sized (tp : ThirdParty) (slot : Slot) : Prop where
  length : (slot.text tp).length < 2^32
  noUnderscore : ∀ str, slot = .other str → (0x5F : UInt8) ∉ str

def payload (tp : ThirdParty) (status : ResourcePackClientResponseStatus) (slots : List Slot) : Bytes :=
  writeU8 status.value ++ writeU16LE (UInt16.ofNat slots.length) ++
  slots.flatMap fun slot => writeString (slot.text tp)

theorem decodeEntries_eq (tp : ThirdParty) (n : Nat) : decodeEntries tp n = Pull.repeated (decodeEntry tp) n := by
  induction n with
  | zero => rfl
  | succ n ih => rw [decodeEntries,Pull.repeated,ih]

theorem decodeEntry_reads (htext : UuidText tp) {slot : Slot} (h : slot.Sized tp) :
    (decodeEntry tp).Reads (writeString (slot.text tp)) slot.entry := by
  rw [← List.append_nil (writeString (slot.text tp))]
  apply (readString_reads h.length).bind
  cases slot with
  | pack entry =>
    have hfound : (tp.uuidToString entry.uuid ++ 0x5F :: entry.version).findIdx? (· == 0x5F) =
        some (tp.uuidToString entry.uuid).length := findIdx?_separator (htext.noUnderscore entry.uuid)
    have hid := fromString_ok (htext.inverts entry.uuid)
    have hversion : (tp.uuidToString entry.uuid ++ 0x5F :: entry.version).drop ((tp.uuidToString entry.uuid).length+1) =
        entry.version := by
      rw [List.append_cons,List.drop_left' (by simp)]
    simp only [Slot.text,hfound,List.take_left,hid,Pull.done_bind,hversion]
    exact Pull.Reads.done entry
  | other str =>
    have hnone : str.findIdx? (· == 0x5F) = none := by
      rw [List.findIdx?_eq_none_iff]
      intro c hc
      have hne : c ≠ 0x5F := fun heq => h.noUnderscore str rfl (heq ▸ hc)
      simpa using hne
    simp only [Slot.text,hnone]
    exact Pull.Reads.done _

theorem decodePayload_reads (htext : UuidText tp) (status : ResourcePackClientResponseStatus) {slots : List Slot}
    (hcount : slots.length ≤ 65535) (h : ∀ slot ∈ slots, slot.Sized tp) :
    (decodePayload tp).Reads (payload tp status slots)
      { responseStatus := status, packEntries := slots.map Slot.entry } := by
  have hlen : (UInt16.ofNat slots.length).toNat = slots.length :=
    UInt16.toNat_ofNat_of_lt' (Nat.lt_succ_of_le hcount)
  have hentries := Pull.Reads.repeated fun slot hslot => decodeEntry_reads htext (h slot hslot)
  simp only [payload,List.append_assoc]
  apply (readU8_reads status.value).bind
  apply (readU16LE_reads _).bind
  rw [hlen,decodeEntries_eq]
  exact hentries.map fun packEntries => ResourcePackClientResponsePacket.mk status packEntries

end ResourcePackClientResponsePacket

open ResourcePackClientResponsePacket

/-- A list of packs comes back as it is, and strings without an underscore among them become default entries
at their own places. -/
theorem response_decodes (htext : UuidText tp) (status : ResourcePackClientResponseStatus) :
    (∀ entries : List Entry, entries.length ≤ 65535 → (∀ entry ∈ entries, (Slot.pack entry).Sized tp) →
      Undoes (decodePayload tp) (payload tp status (entries.map .pack))
        { responseStatus := status, packEntries := entries }) ∧
    (∀ slots : List Slot, slots.length ≤ 65535 → (∀ slot ∈ slots, slot.Sized tp) →
      Undoes (decodePayload tp) (payload tp status slots)
        { responseStatus := status, packEntries := slots.map Slot.entry }) := by
  constructor
  · intro entries hcount h
    have hreads := @decodePayload_reads tp htext status (entries.map .pack) (by simpa using hcount) (by simpa using h)
    rw [List.map_map] at hreads
    have hsame : Slot.entry ∘ Slot.pack = id := rfl
    rw [hsame,List.map_id] at hreads
    exact undoes_of_reads hreads
  · intro slots hcount h
    exact undoes_of_reads (decodePayload_reads htext status hcount h)

theorem response_decodes_mixed :
    let status := ResourcePackClientResponseStatus.SendPacks
    let entry : Entry := { uuid := UUID.nil, version := [0x31,0x5F,0x30] }
    let slots : List Slot := [.other [0x61],.pack entry,.other []]
    Undoes (decodePayload .textIds) (payload .textIds status [.pack entry])
        { responseStatus := status, packEntries := [entry] } ∧
      Undoes (decodePayload .textIds) (payload .textIds status slots)
        { responseStatus := status, packEntries := [{},entry,{}] } := by
  intro status entry slots
  have hentry : (Slot.pack entry).Sized .textIds := ⟨by decide,fun str h => by cases h⟩
  have hother : ∀ str : Bytes, str.length < 2^32 → (0x5F : UInt8) ∉ str → (Slot.other str).Sized .textIds :=
    fun str hlength hstr => ⟨hlength,fun str' h => by cases h; exact hstr⟩
  have hslots : ∀ slot ∈ slots, slot.Sized .textIds := by
    intro slot hslot
    simp only [slots,List.mem_cons,List.not_mem_nil,or_false] at hslot
    rcases hslot with rfl | rfl | rfl
    · exact hother _ (by decide) (by decide)
    · exact hentry
    · exact hother _ (by decide) (by decide)
  have hboth := response_decodes ThirdParty.textIds_uuidText status
  exact ⟨hboth.1 [entry] (by decide) (by simpa using hentry),hboth.2 slots (by decide) hslots⟩

end CyrexMC
