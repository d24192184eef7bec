import CyrexMC.Protocol.RoundTrip
import CyrexMC.Protocol.DecoderBounds
set_option autoImplicit false

namespace CyrexMC
open BinaryReader BinaryWriter

def ResourcePacksInfoPacket.parse : Read ResourcePacksInfoPacket := do
  let mustAccept ← readBool
  let hasAddonPacks ← readBool
  let scripting ← readBool
  let disableVibrantVisuals ← readBool
  let worldTemplateId ← readUUID
  let worldTemplateVersion ← readString
  let count ← readU16LE
  let resourcePackEntries ← Pull.repeated ResourcePackInfoEntry.decode count.toNat
  pure { mustAccept, hasAddonPacks, scripting, disableVibrantVisuals, worldTemplateId, worldTemplateVersion,
         resourcePackEntries }

def ResourcePackStackPacket.parse : Read ResourcePackStackPacket := do
  let mustAccept ← readBool
  let count ← readVarUInt
  let resourcePackStack ← Pull.repeated ResourcePackStackEntry.decode count.toNat
  let baseGameVersion ← readString
  let experiments ← Experiments.decode
  let includeEditorPacks ← readBool
  pure { mustAccept, resourcePackStack, baseGameVersion, experiments, includeEditorPacks }

def Experiments.toggles (e : Experiments) : List ExperimentEntry := e.activeToggles ++ e.alwaysOnToggles

structure Experiments.Sized (e : Experiments) : Prop where
  count : e.toggles.length < 2^32
  names : ∀ toggle ∈ e.toggles, toggle.name.length < 2^32

theorem Experiments.decode_reads {e : Experiments} (h : e.Sized) :
    decode.Reads e.encode { e with activeToggles := e.toggles, alwaysOnToggles := [] } := by
  have hcount : (UInt32.ofNat (e.activeToggles.length+e.alwaysOnToggles.length)).toNat = e.toggles.length := by
    rw [← List.length_append]
    exact UInt32.toNat_ofNat_of_lt' h.count
  have htoggles := Pull.Reads.repeated_self fun toggle ht => ExperimentEntry.decode_reads (h.names toggle ht)
  rw [toggles,List.flatMap_append] at htoggles
  simp only [encode,List.append_assoc]
  apply (readU32LE_reads _).bind
  rw [hcount,← List.append_assoc]
  exact htoggles.bind ((readBool_reads e.wereAnyExperimentsEverToggled).map fun b =>
    { e with activeToggles := e.toggles, alwaysOnToggles := [], wereAnyExperimentsEverToggled := b })

/-- The value with its toggles in one list. -/
def Experiments.merged (e : Experiments) : Experiments :=
  { e with activeToggles := e.toggles, alwaysOnToggles := [] }

theorem ExperimentEntry.checked_decode : Checked (fun e => e.name.length < 2^32) decode :=
  checked_readString.bind fun _ hname => checked_readBool.bind fun _ _ => checked_pure hname

theorem Experiments.checked_decode : Checked (fun e => ∀ toggle ∈ e.toggles, toggle.name.length < 2^32) decode := by
  have htoggles := fun n : Nat => Pull.Sound.repeated ExperimentEntry.checked_decode n
  refine checked_readU32LE.bind fun total _ => (htoggles total.toNat).bind fun all hall => ?_
  refine checked_readBool.bind fun _ _ => checked_pure ?_
  simpa [toggles] using hall

/-- There is one count on the wire, so the toggles of both lists come back as one list, if their names have a length
that a prefix can carry. -/
theorem experiments_decode_merges (e : Experiments) (suffix : Bytes) (hcount : e.toggles.length < 2^32) :
    Returns Experiments.decode e.encode suffix e.merged ↔ ∀ toggle ∈ e.toggles, toggle.name.length < 2^32 := by
  constructor
  · intro h
    have hnames := Experiments.checked_decode.returned h
    simpa [Experiments.toggles,Experiments.merged] using hnames
  · intro hnames
    have hreads : Experiments.decode.Reads e.encode e.merged := Experiments.decode_reads ⟨hcount,hnames⟩
    exact (returns_iff hreads suffix).mpr rfl

theorem experiments_decode_merges_two :
    let e : Experiments := { activeToggles := [{ name := [0x61] }], alwaysOnToggles := [{ name := [0x62], enabled := true }] }
    Returns Experiments.decode e.encode [7] e.merged ↔ ∀ toggle ∈ e.toggles, toggle.name.length < 2^32 :=
  experiments_decode_merges _ [7] (by decide)

/-- A toggle that is always on comes back as an active one. -/
theorem alwaysOn_toggle_moves :
    let e : Experiments := { alwaysOnToggles := [{ name := [0x62], enabled := true }] }
    ¬ Returns Experiments.decode e.encode [] e := by
  intro e
  have hreads : Experiments.decode.Reads e.encode e.merged := Experiments.decode_reads ⟨by decide,by decide⟩
  rw [returns_iff hreads]
  decide

structure ResourcePacksInfoPacket.Sized (pk : ResourcePacksInfoPacket) : Prop where
  worldTemplateVersion : pk.worldTemplateVersion.length < 2^32
  count : pk.resourcePackEntries.length ≤ 65535
  entries : ∀ entry ∈ pk.resourcePackEntries, entry.Sized

theorem ResourcePacksInfoPacket.parse_reads {pk : ResourcePacksInfoPacket} (h : pk.Sized) :
    parse.Reads pk.encodePayload pk := by
  have hcount : (UInt16.ofNat pk.resourcePackEntries.length).toNat = pk.resourcePackEntries.length :=
    UInt16.toNat_ofNat_of_lt' (Nat.lt_succ_of_le h.count)
  have hentries := Pull.Reads.repeated_self fun entry he => ResourcePackInfoEntry.decode_reads (h.entries entry he)
  simp only [encodePayload,encodePacks,List.append_assoc]
  apply (readBool_reads pk.mustAccept).bind
  apply (readBool_reads pk.hasAddonPacks).bind
  apply (readBool_reads pk.scripting).bind
  apply (readBool_reads pk.disableVibrantVisuals).bind
  apply (readUUID_reads pk.worldTemplateId).bind
  apply (readString_reads h.worldTemplateVersion).bind
  apply (readU16LE_reads _).bind
  rw [hcount]
  exact hentries.map fun entries => { pk with resourcePackEntries := entries }

structure ResourcePackStackPacket.Sized (pk : ResourcePackStackPacket) : Prop where
  count : pk.resourcePackStack.length < 2^32
  entries : ∀ entry ∈ pk.resourcePackStack, entry.Sized
  baseGameVersion : pk.baseGameVersion.length < 2^32
  experiments : pk.experiments.Sized

def ResourcePackStackPacket.merged (pk : ResourcePackStackPacket) : ResourcePackStackPacket :=
  { pk with experiments := { pk.experiments with activeToggles := pk.experiments.toggles, alwaysOnToggles := [] } }

theorem ResourcePackStackPacket.parse_reads {pk : ResourcePackStackPacket} (h : pk.Sized) :
    parse.Reads pk.encodePayload pk.merged := by
  have hcount : (UInt32.ofNat pk.resourcePackStack.length).toNat = pk.resourcePackStack.length :=
    UInt32.toNat_ofNat_of_lt' h.count
  have hentries := Pull.Reads.repeated_self fun entry he => ResourcePackStackEntry.decode_reads (h.entries entry he)
  simp only [encodePayload,List.append_assoc]
  apply (readBool_reads pk.mustAccept).bind
  apply (readVarUInt_reads _).bind
  rw [hcount]
  apply hentries.bind
  apply (readString_reads h.baseGameVersion).bind
  apply (Experiments.decode_reads h.experiments).bind
  exact (readBool_reads pk.includeEditorPacks).map fun b => { pk.merged with includeEditorPacks := b }

/-- Both packets parse back at any place of an array, and the reader stops right behind them. -/
theorem packLists_parse_back :
    (∀ pk : ResourcePacksInfoPacket, pk.Sized → Undoes ResourcePacksInfoPacket.parse pk.encodePayload pk) ∧
    (∀ pk : ResourcePackStackPacket, pk.Sized →
      Undoes ResourcePackStackPacket.parse pk.encodePayload pk.merged) := by
  constructor
  · intro pk h
    exact undoes_of_reads (ResourcePacksInfoPacket.parse_reads h)
  · intro pk h
    exact undoes_of_reads (ResourcePackStackPacket.parse_reads h)

theorem packLists_parse_back_two :
    let info : ResourcePacksInfoPacket := { mustAccept := true, resourcePackEntries := [{ packVersion := [0x31] },{}] }
    let experiments : Experiments :=
      { activeToggles := [{ name := [0x62], enabled := true }], alwaysOnToggles := [{ name := [0x63] }] }
    let stack : ResourcePackStackPacket := { resourcePackStack := [{ packId := [0x61] },{}], experiments }
    Undoes ResourcePacksInfoPacket.parse info.encodePayload info ∧
      Undoes ResourcePackStackPacket.parse stack.encodePayload stack.merged := by
  intro info experiments stack
  have hinfo : info.Sized := by
    refine ⟨by decide,by decide,fun entry he => ?_⟩
    simp only [info,List.mem_cons,List.not_mem_nil,or_false] at he
    rcases he with rfl | rfl <;> constructor <;> decide
  have hstack : stack.Sized := by
    refine ⟨by decide,fun entry he => ?_,by decide,by decide,by decide⟩
    simp only [stack,List.mem_cons,List.not_mem_nil,or_false] at he
    rcases he with rfl | rfl <;> constructor <;> decide
  exact ⟨packLists_parse_back.1 info hinfo,packLists_parse_back.2 stack hstack⟩

end CyrexMC
