import CyrexMC.ResourcePacks.ZippedResourcePack
set_option autoImplicit false

namespace CyrexMC
open Stateful

/-- `seekg` to any offset; there is no place before the beginning. -/
def IfStream.seekTo (s : IfStream) (off : Int) : IfStream :=
  if 0 ≤ off then s.seekg off.toNat else { s with eofbit := false, failbit := true }

theorem IfStream.read_seekg {s : IfStream} (h : s.failbit = false) (content : Bytes) (off n : Nat) :
    ((s.seekg off).read content n).1 = (content.drop off).take n ∧
      (((s.seekg off).read content n).2.failbit = true ↔ ((content.drop off).take n).length < n) := by
  simp only [seekg,read,h,Bool.false_eq_true,if_false,Bool.or_self]
  split
  · rename_i hshort
    exact ⟨rfl,fun _ => hshort,fun _ => rfl⟩
  · rename_i hfull
    exact ⟨rfl,fun hbad => absurd hbad Bool.false_ne_true,fun hshort => absurd hshort hfull⟩

theorem IfStream.read_bad {s : IfStream} (h : s.failbit = true) (content : Bytes) (off n : Nat) :
    ((s.seekg off).read content n).1 = [] ∧ ((s.seekg off).read content n).2.failbit = true := by
  simp [seekg,read,h]

namespace ZippedResourcePack

/-- `getPackChunkString` as it is for any `std::streamoff`, where there is memory for the buffer. -/
def getPackChunkStringAt (start : Int) (length : Nat) : Call Bytes := do
  if length < 1 then throw (.throws .packLength)
  modify fun p => { p with fileStream := p.fileStream.seekTo start }
  let p ← get
  if p.fileStream.failbit then throw (.throws .chunkOffset)
  let (buffer,stream) := p.fileStream.read p.file length
  set { p with fileStream := stream }
  return buffer

theorem getPackChunkStringAt_natCast (start length : Nat) :
    getPackChunkStringAt (start : Int) length = getPackChunkString start length := by
  simp [getPackChunkStringAt,getPackChunkString,IfStream.seekTo]

inductive ReadCall where
  | getPackChunkString (start : Int) (length : Nat)
  | getPackChunk (off len : Nat)

namespace ReadCall

def run : ReadCall → Call Bytes
  | .getPackChunkString start length => getPackChunkStringAt start length
  | .getPackChunk off len => ZippedResourcePack.getPackChunk off len

def after (p : ZippedResourcePack) (c : ReadCall) : ZippedResourcePack :=
  match c.run p with
  | .ok _ q => q
  | .error _ q => q

/-- The bytes that the call has to return: those of the file from its offset on, as far as they reach. -/
def expected (file : Bytes) : ReadCall → Option Bytes
  | .getPackChunkString start length =>
    if 0 < length ∧ 0 ≤ start ∧ start < file.length then some ((file.drop start.toNat).take length) else none
  | .getPackChunk off len => if 0 < len ∧ off < file.length then some ((file.drop off).take len) else none

def Overruns (file : Bytes) : ReadCall → Prop
  | .getPackChunkString start length => 0 < length ∧ (start < 0 ∨ file.length < start+length)
  | .getPackChunk _ _ => False

def onStream (file : Bytes) (s : IfStream) : ReadCall → Except Fault Bytes × IfStream
  | .getPackChunkString start length =>
    if length < 1 then (.error (.throws .packLength),s)
    else if (s.seekTo start).failbit then (.error (.throws .chunkOffset),s.seekTo start)
    else (.ok ((s.seekTo start).read file length).1,((s.seekTo start).read file length).2)
  | .getPackChunk off len =>
    let chunkLen := min len (file.length-off)
    let read := (s.seekg off).read file chunkLen
    if len = 0 then (.error (.throws .chunkLength),s)
    else if off ≥ file.length then (.error (.throws .offsetRange),s)
    else if read.1.length ≠ chunkLen then (.error (.throws .chunkRead),read.2)
    else (.ok read.1,read.2)

theorem run_eq (p : ZippedResourcePack) (c : ReadCall) :
    c.run p = match c.onStream p.file p.fileStream with
      | (.ok bytes,fileStream) => .ok bytes { p with fileStream }
      | (.error e,fileStream) => .error e { p with fileStream } := by
  cases c with
  | getPackChunkString start length =>
    by_cases hlen : length < 1
    · simp [run,onStream,getPackChunkStringAt,bind_apply,hlen]
    · by_cases hfail : (p.fileStream.seekTo start).failbit <;>
        simp [run,onStream,getPackChunkStringAt,bind_apply,map_apply,hlen,hfail]
  | getPackChunk off len =>
    by_cases hlen : len = 0
    · simp [run,onStream,ZippedResourcePack.getPackChunk,bind_apply,hlen]
    · by_cases hoff : off ≥ p.file.length
      · simp [run,onStream,ZippedResourcePack.getPackChunk,getPackSize,bind_apply,hlen,hoff]
      · by_cases hread : ((p.fileStream.seekg off).read p.file (min len (p.file.length-off))).1.length =
            min len (p.file.length-off)
        · simp [run,onStream,ZippedResourcePack.getPackChunk,getPackSize,bind_apply,hlen,hoff,hread]
        · simp [run,onStream,ZippedResourcePack.getPackChunk,getPackSize,bind_apply,map_apply,hlen,hoff,hread]

theorem after_eq (p : ZippedResourcePack) (c : ReadCall) :
    c.after p = { p with fileStream := (c.onStream p.file p.fileStream).2 } := by
  rw [after,run_eq]
  rcases c.onStream p.file p.fileStream with ⟨e | bytes,s⟩ <;> rfl

theorem onStream_good {file : Bytes} {s : IfStream} (hs : s.failbit = false) (c : ReadCall) :
    ((c.onStream file s).2.failbit = true ↔ c.Overruns file) ∧
      ∀ bytes, c.expected file = some bytes → (c.onStream file s).1 = .ok bytes := by
  cases c with
  | getPackChunkString start length =>
    simp only [onStream,Overruns,expected]
    by_cases hlen : length < 1
    · have hnone : ¬ 0 < length := by omega
      simp [hlen,hs,hnone]
    · by_cases hstart : 0 ≤ start
      · obtain ⟨hread,hbad⟩ := IfStream.read_seekg hs file start.toNat length
        have hgood : (s.seekg start.toNat).failbit = false := by simp [IfStream.seekg,hs]
        simp only [IfStream.seekTo,hlen,hstart,if_true,if_false,hgood,Bool.false_eq_true,hread,hbad,List.length_take,
          List.length_drop]
        constructor
        · omega
        · intro bytes hbytes
          split at hbytes
          · exact congrArg Except.ok (Option.some_inj.mp hbytes)
          · cases hbytes
      · have hnone : ¬ (0 < length ∧ 0 ≤ start ∧ start < file.length) := fun h => hstart h.2.1
        rw [if_neg hlen,IfStream.seekTo,if_neg hstart,if_neg hnone]
        refine ⟨⟨fun _ => ⟨by omega,Or.inl (by omega)⟩,fun _ => rfl⟩,?_⟩
        intro bytes hbytes
        cases hbytes
  | getPackChunk off len =>
    simp only [onStream,Overruns,expected,iff_false]
    by_cases hin : 0 < len ∧ off < file.length
    · obtain ⟨hread,hbad⟩ := IfStream.read_seekg hs file off (min len (file.length-off))
      have hlen : ¬ len = 0 := by omega
      have hoff : ¬ off ≥ file.length := by omega
      have htake : (file.drop off).take (min len (file.length-off)) = (file.drop off).take len := by
        rw [← List.take_take,← List.length_drop,List.take_length]
      have hfull : ((file.drop off).take len).length = min len (file.length-off) := by
        rw [List.length_take,List.length_drop]
      rw [htake] at hread hbad
      rw [if_neg hlen,if_neg hoff,hread,if_neg (not_not_intro hfull),if_pos hin,hbad,hfull]
      refine ⟨Nat.lt_irrefl _,?_⟩
      intro bytes hbytes
      exact congrArg Except.ok (Option.some_inj.mp hbytes)
    · rw [if_neg hin]
      refine ⟨?_,fun bytes hbytes => by cases hbytes⟩
      by_cases hlen : len = 0
      · rw [if_pos hlen,hs]
        exact Bool.false_ne_true
      · rw [if_neg hlen,if_pos (by omega),hs]
        exact Bool.false_ne_true

theorem onStream_bad {s : IfStream} (hs : s.failbit = true) (file : Bytes) (c : ReadCall) :
    (c.onStream file s).2.failbit = true ∧ ∀ bytes, (c.onStream file s).1 ≠ .ok bytes := by
  cases c with
  | getPackChunkString start length =>
    have hseek : (s.seekTo start).failbit = true := by
      unfold IfStream.seekTo IfStream.seekg
      split <;> simp [hs]
    simp only [onStream,hseek,if_true]
    split <;> simp [hs,hseek]
  | getPackChunk off len =>
    obtain ⟨hread,hbad⟩ := IfStream.read_bad hs file off (min len (file.length-off))
    simp only [onStream,hread,List.length_nil]
    split
    · simp [hs]
    · split
      · simp [hs]
      · rename_i hlen hoff
        have hshort : 0 ≠ min len (file.length-off) := by omega
        simp [hshort,hbad]

end ReadCall

def afterAll (p : ZippedResourcePack) (calls : List ReadCall) : ZippedResourcePack := calls.foldl ReadCall.after p

theorem afterAll_file (p : ZippedResourcePack) (calls : List ReadCall) : (p.afterAll calls).file = p.file := by
  induction calls generalizing p with
  | nil => rfl
  | cons c calls ih =>
    have hrest := ih (c.after p)
    rw [c.after_eq] at hrest
    rwa [afterAll,List.foldl_cons,c.after_eq]

theorem afterAll_failbit (p : ZippedResourcePack) (calls : List ReadCall) :
    (p.afterAll calls).fileStream.failbit = true ↔
      p.fileStream.failbit = true ∨ ∃ c ∈ calls, c.Overruns p.file := by
  induction calls generalizing p with
  | nil => simp [afterAll]
  | cons c calls ih =>
    have hnext := ih (c.after p)
    rw [c.after_eq] at hnext
    rw [afterAll,List.foldl_cons,c.after_eq]
    rw [afterAll] at hnext
    rw [hnext]
    cases hp : p.fileStream.failbit with
    | true => simp [(c.onStream_bad hp p.file).1]
    | false => simp [(c.onStream_good hp).1]

/-- Each call returns what it has to, whatever came before it. -/
def ReadsFaithfully (p : ZippedResourcePack) (calls : List ReadCall) : Prop :=
  ∀ before c rest, calls = before ++ c :: rest → ∀ bytes, c.expected p.file = some bytes →
    ∃ q, c.run (p.afterAll before) = .ok bytes q

def OverrunsLast (file : Bytes) (calls : List ReadCall) : Prop :=
  ∀ before c rest, calls = before ++ c :: rest → (c.expected file).isSome → ∀ d ∈ before, ¬ d.Overruns file

end ZippedResourcePack

open ZippedResourcePack

/-- The reads of a pack that has just been opened do not depend on those before them if and only if none of these
has gone past an end of the file. -/
theorem reads_faithfully_iff (p : ZippedResourcePack) (calls : List ReadCall) :
    ReadsFaithfully { p with fileStream := {} } calls ↔ OverrunsLast p.file calls := by
  let opened : ZippedResourcePack := { p with fileStream := {} }
  have hopened : ∀ before, (opened.afterAll before).fileStream.failbit = true ↔ ∃ d ∈ before, d.Overruns p.file := by
    intro before
    have hall := opened.afterAll_failbit before
    simpa [opened] using hall
  constructor
  · intro h before c rest hcalls hsome d hd hoverruns
    obtain ⟨bytes,hbytes⟩ := Option.isSome_iff_exists.mp hsome
    obtain ⟨q,hq⟩ := h before c rest hcalls bytes hbytes
    have hbad := (c.onStream_bad ((hopened before).mpr ⟨d,hd,hoverruns⟩) (opened.afterAll before).file).2 bytes
    change c.run (opened.afterAll before) = .ok bytes q at hq
    rw [c.run_eq] at hq
    rcases hon : c.onStream (opened.afterAll before).file (opened.afterAll before).fileStream with ⟨e | got,s⟩
    · rw [hon] at hq
      cases hq
    · rw [hon] at hq hbad
      cases hq
      exact hbad rfl
  · intro h before c rest hcalls bytes hbytes
    have hgood : (opened.afterAll before).fileStream.failbit = false := by
      rw [Bool.eq_false_iff,ne_eq,hopened]
      rintro ⟨d,hd,hoverruns⟩
      exact h before c rest hcalls (Option.isSome_iff_exists.mpr ⟨bytes,hbytes⟩) d hd hoverruns
    have hfile : (opened.afterAll before).file = p.file := opened.afterAll_file before
    change c.expected p.file = some bytes at hbytes
    rw [← hfile] at hbytes
    have hok := (c.onStream_good hgood).2 bytes hbytes
    change ∃ q, c.run (opened.afterAll before) = .ok bytes q
    rw [c.run_eq]
    rcases hon : c.onStream (opened.afterAll before).file (opened.afterAll before).fileStream with ⟨e | got,s⟩
    · rw [hon] at hok
      cases hok
    · rw [hon] at hok
      cases hok
      exact ⟨{ opened.afterAll before with fileStream := s },rfl⟩

/-- After a read that was cut short the pack no longer gives its 22 bytes. -/
theorem shortRead_spoils : ¬ ReadsFaithfully (ofId default 22 (by decide))
    [.getPackChunkString 0 23,.getPackChunkString 0 22] := by
  intro h
  obtain ⟨q,hq⟩ := h [.getPackChunkString 0 23] (.getPackChunkString 0 22) [] rfl (List.replicate 22 0) rfl
  cases hq

end CyrexMC
