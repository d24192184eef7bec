import Mathlib.Algebra.GroupWithZero.Nat
import Mathlib.Data.List.Basic
import Mathlib.Data.List.TakeWhile
set_option autoImplicit false

namespace Lines

def newline : UInt8 := 0x0A

/-- The last line counts with or without a newline behind it. -/
def getLines : List UInt8 → List (List UInt8)
  | [] => []
  | b :: text =>
    if b = newline then [] :: getLines text
    else match getLines text with
      | [] => [[b]]
      | line :: lines => (b :: line) :: lines

def unlines (lines : List (List UInt8)) : List UInt8 := lines.flatMap fun line => line ++ [newline]

@[simp] theorem unlines_nil : unlines [] = [] := rfl

theorem unlines_cons (line : List UInt8) (lines : List (List UInt8)) :
    unlines (line :: lines) = line ++ newline :: unlines lines := by
  simp [unlines]

theorem getLines_append {line : List UInt8} (h : newline ∉ line) (text : List UInt8) :
    getLines (line ++ newline :: text) = line :: getLines text := by
  induction line with
  | nil => simp [getLines]
  | cons b line ih =>
    have hb : b ≠ newline := fun heq => h (by simp [heq])
    have hline := ih fun hmem => h (List.mem_cons_of_mem _ hmem)
    rw [List.cons_append,getLines,if_neg hb,hline]

theorem getLines_unlines {lines : List (List UInt8)} (h : ∀ line ∈ lines, newline ∉ line) :
    getLines (unlines lines) = lines := by
  induction lines with
  | nil => rfl
  | cons line lines ih =>
    have hline : newline ∉ line := h line (List.mem_cons_self ..)
    rw [unlines_cons,getLines_append hline,ih fun l hl => h l (List.mem_cons_of_mem _ hl)]

def equalsSign : UInt8 := 0x3D

/-- The key and the value of a line, unless it is blank or a comment or has no equals sign. -/
def setting? (line : List UInt8) : Option (List UInt8 × List UInt8) :=
  if line = [] ∨ line.head? = some 0x23 then none
  else (line.idxOf? equalsSign).map fun pos => (line.take pos,line.drop (pos+1))

def valueOf (key line : List UInt8) : Option (List UInt8) :=
  (setting? line).bind fun s => if s.1 = key then some s.2 else none

def lastValue (key : List UInt8) : List (List UInt8) → Option (List UInt8)
  | [] => none
  | line :: lines => (lastValue key lines).or (valueOf key line)

structure Key (key : List UInt8) : Prop where
  nonempty : key ≠ []
  uncommented : key.head? ≠ some 0x23
  plain : equalsSign ∉ key

instance (key : List UInt8) : Decidable (Key key) :=
  decidable_of_iff (key ≠ [] ∧ key.head? ≠ some 0x23 ∧ equalsSign ∉ key)
    ⟨fun h => ⟨h.1,h.2.1,h.2.2⟩,fun h => ⟨h.nonempty,h.uncommented,h.plain⟩⟩

def settingLine (s : List UInt8 × List UInt8) : List UInt8 := s.1 ++ equalsSign :: s.2

theorem setting?_settingLine {s : List UInt8 × List UInt8} (h : Key s.1) : setting? (settingLine s) = some s := by
  obtain ⟨key,val⟩ := s
  have hhead : (key ++ equalsSign :: val).head? = key.head? := List.head?_append_of_ne_nil _ h.nonempty
  have hpos : (key ++ equalsSign :: val).idxOf? equalsSign = some key.length := by
    rw [List.idxOf?_eq_some_iff]
    refine ⟨by simp,by simp,?_⟩
    intro j hj heq
    rw [List.getElem_append_left hj] at heq
    exact h.plain (heq ▸ List.getElem_mem hj)
  rw [settingLine,setting?,hhead,hpos,if_neg (not_or.mpr ⟨by simp,h.uncommented⟩)]
  simp

theorem valueOf_settingLine {s : List UInt8 × List UInt8} (h : Key s.1) (key : List UInt8) :
    valueOf key (settingLine s) = if s.1 = key then some s.2 else none := by
  rw [valueOf,setting?_settingLine h,Option.bind_some]

theorem valueOf_eq_some {key val line : List UInt8} : valueOf key line = some val ↔ setting? line = some (key,val) := by
  cases hline : setting? line with
  | none => simp [valueOf,hline]
  | some s =>
    obtain ⟨k,v⟩ := s
    by_cases hk : k = key
    · simp [valueOf,hline,hk]
    · simp [valueOf,hline,hk]

theorem valueOf_other {key other val line : List UInt8} (h : valueOf key line = some val) (hne : other ≠ key) :
    valueOf other line = none := by
  rw [valueOf,valueOf_eq_some.mp h,Option.bind_some,if_neg hne.symm]

theorem exists_of_lastValue {key val : List UInt8} {lines : List (List UInt8)} (h : lastValue key lines = some val) :
    ∃ line ∈ lines, valueOf key line = some val := by
  induction lines with
  | nil => cases h
  | cons line lines ih =>
    rw [lastValue,Option.or_eq_some_iff] at h
    rcases h with hrest | ⟨-,hline⟩
    · obtain ⟨l,hl,heq⟩ := ih hrest
      exact ⟨l,List.mem_cons_of_mem _ hl,heq⟩
    · exact ⟨line,List.mem_cons_self ..,hline⟩

theorem lastValue_isSome {key val line : List UInt8} {lines : List (List UInt8)} (hmem : line ∈ lines)
    (h : valueOf key line = some val) : (lastValue key lines).isSome := by
  induction lines with
  | nil => cases hmem
  | cons l lines ih =>
    rw [lastValue,Option.isSome_or,Bool.or_eq_true]
    rcases List.mem_cons.mp hmem with rfl | hrest
    · exact Or.inr (by rw [h]; rfl)
    · exact Or.inl (ih hrest)

theorem lastValue_eq_some {key val line : List UInt8} {lines : List (List UInt8)} (hmem : line ∈ lines)
    (h : valueOf key line = some val) (hsame : ∀ l ∈ lines, ∀ v, valueOf key l = some v → v = val) :
    lastValue key lines = some val := by
  obtain ⟨v,hv⟩ := Option.isSome_iff_exists.mp (lastValue_isSome hmem h)
  obtain ⟨l,hl,hlast⟩ := exists_of_lastValue hv
  rw [hv,hsame l hl v hlast]

end Lines

namespace Words

variable {α : Type} (blank : α → Bool)

def word (text : List α) : List α := (text.dropWhile blank).takeWhile fun a => !blank a

def rest (text : List α) : List α := (text.dropWhile blank).dropWhile fun a => !blank a

def splitLoop : Nat → List α → List (List α)
  | 0, _ => []
  | n+1, text => if (word blank text).isEmpty then [] else word blank text :: splitLoop n (rest blank text)

/-- A text has no more words than symbols. -/
def split (text : List α) : List (List α) := splitLoop blank text.length text

/-- The text is these words, with blanks in front of them, between them and behind them. -/
inductive Renders : List (List α) → List α → Prop where
  | nil {gap : List α} (hgap : ∀ a ∈ gap, blank a = true) : Renders [] gap
  | cons {gap w text : List α} {ws : List (List α)} (hgap : ∀ a ∈ gap, blank a = true) (hne : w ≠ [])
      (hw : ∀ a ∈ w, blank a = false) (hsep : ∀ a ∈ text.head?, blank a = true) (htext : Renders ws text) :
      Renders (w :: ws) (gap ++ (w ++ text))

variable {blank}

theorem word_append_rest (text : List α) : word blank text ++ rest blank text = text.dropWhile blank :=
  List.takeWhile_append_dropWhile

theorem blank_head_rest (text : List α) : ∀ a ∈ (rest blank text).head?, blank a = true := by
  intro a ha
  have hhead := List.head?_dropWhile_not (fun a => !blank a) (text.dropWhile blank)
  rw [rest] at ha
  rw [Option.mem_def.mp ha] at hhead
  simpa using hhead

theorem word_blank {a : α} {text : List α} (h : a ∈ word blank text) : blank a = false := by
  simpa using List.mem_takeWhile_imp h

theorem blank_of_word_nil {text : List α} (h : word blank text = []) : ∀ a ∈ text, blank a = true := by
  have hdrop : text.dropWhile blank = [] := by
    cases hd : text.dropWhile blank with
    | nil => rfl
    | cons a t =>
      have hhead := List.head?_dropWhile_not blank text
      rw [hd] at hhead
      simp only [List.head?_cons] at hhead
      have ha : blank a = false := by simpa using hhead
      simp [word,hd,ha] at h
  exact List.dropWhile_eq_nil_iff.mp hdrop

theorem renders_splitLoop {n : Nat} {text : List α} (h : text.length ≤ n) : Renders blank (splitLoop blank n text) text := by
  induction n generalizing text with
  | zero =>
    have hnil : text = [] := List.length_eq_zero_iff.mp (by omega)
    subst hnil
    exact .nil (by simp)
  | succ n ih =>
    unfold splitLoop
    split
    · rename_i hempty
      exact .nil (blank_of_word_nil (List.isEmpty_iff.mp hempty))
    · rename_i hmore
      have hne : word blank text ≠ [] := fun hnil => hmore (List.isEmpty_iff.mpr hnil)
      have hpos := List.length_pos_iff.mpr hne
      have hsplit : text = text.takeWhile blank ++ (word blank text ++ rest blank text) := by
        rw [word_append_rest,List.takeWhile_append_dropWhile]
      have hlen := congrArg List.length hsplit
      simp only [List.length_append] at hlen
      have hrest : Renders blank (splitLoop blank n (rest blank text)) (rest blank text) := ih (by omega)
      have hgap : ∀ a ∈ text.takeWhile blank, blank a = true := fun a ha => List.mem_takeWhile_imp ha
      have hrender := Renders.cons hgap hne (fun a ha => word_blank ha)
        (blank_head_rest text) hrest
      rwa [← hsplit] at hrender

theorem dropWhile_gap {gap text : List α} (hgap : ∀ a ∈ gap, blank a = true) :
    (gap ++ text).dropWhile blank = text.dropWhile blank :=
  List.dropWhile_append_of_pos hgap

theorem word_rest_cons {gap w text : List α} (hgap : ∀ a ∈ gap, blank a = true) (hne : w ≠ [])
    (hw : ∀ a ∈ w, blank a = false) (hsep : ∀ a ∈ text.head?, blank a = true) :
    word blank (gap ++ (w ++ text)) = w ∧ rest blank (gap ++ (w ++ text)) = text := by
  have hdrop : (gap ++ (w ++ text)).dropWhile blank = w ++ text := by
    rw [dropWhile_gap hgap]
    cases w with
    | nil => exact absurd rfl hne
    | cons a w => simp [hw a]
  have hall : ∀ a ∈ w, (!blank a) = true := fun a ha => by simp [hw a ha]
  have htext : text.takeWhile (fun a => !blank a) = [] ∧ text.dropWhile (fun a => !blank a) = text := by
    cases text with
    | nil => exact ⟨rfl,rfl⟩
    | cons a text =>
      have ha : blank a = true := hsep a rfl
      simp [ha]
  constructor
  · rw [word,hdrop,List.takeWhile_append_of_pos hall,htext.1,List.append_nil]
  · rw [rest,hdrop,List.dropWhile_append_of_pos hall,htext.2]

theorem splitLoop_of_renders {n : Nat} {text : List α} {ws : List (List α)} (h : Renders blank ws text)
    (hn : text.length ≤ n) : splitLoop blank n text = ws := by
  induction h generalizing n with
  | @nil gap hgap =>
    have hword : word blank gap = [] := by rw [word,List.dropWhile_eq_nil_iff.mpr hgap]; rfl
    cases n with
    | zero => rfl
    | succ n => simp [splitLoop,hword]
  | @cons gap w text ws hgap hne hw hsep htext ih =>
    obtain ⟨hword,hrest⟩ := word_rest_cons hgap hne hw hsep
    have hpos := List.length_pos_iff.mpr hne
    simp only [List.length_append] at hn
    cases n with
    | zero => omega
    | succ n =>
      have hempty : w.isEmpty = false := by simpa using hne
      simp only [splitLoop,hword,hrest,hempty,Bool.false_eq_true,if_false]
      rw [ih (by omega)]

/-- A text has the words that it is written with, and no others. -/
theorem split_eq_iff (text : List α) (ws : List (List α)) : split blank text = ws ↔ Renders blank ws text := by
  constructor
  · rintro rfl
    exact renders_splitLoop (Nat.le_refl _)
  · exact fun h => splitLoop_of_renders h (Nat.le_refl _)

end Words

namespace Delimited

variable {α : Type} [DecidableEq α] (sep : α)

def join (fields : List (List α)) : List α := fields.flatMap fun field => field ++ [sep]

def cut : List α → List (List α) × List α
  | [] => ([],[])
  | a :: text =>
    let (fields,rest) := cut text
    if a = sep then ([] :: fields,rest)
    else match fields with
      | [] => ([],a :: rest)
      | field :: fields => ((a :: field) :: fields,rest)

variable {sep}

theorem cut_append {field : List α} (h : sep ∉ field) (text : List α) :
    cut sep (field ++ sep :: text) = (field :: (cut sep text).1,(cut sep text).2) := by
  induction field with
  | nil => simp [cut]
  | cons a field ih =>
    have ha : a ≠ sep := fun heq => h (by simp [heq])
    have hrest := ih fun hmem => h (List.mem_cons_of_mem _ hmem)
    simp [cut,hrest,ha]

theorem cut_join {fields : List (List α)} (h : ∀ field ∈ fields, sep ∉ field) : cut sep (join sep fields) = (fields,[]) := by
  induction fields with
  | nil => rfl
  | cons field fields ih =>
    have hrest := ih fun f hf => h f (List.mem_cons_of_mem _ hf)
    have htext : join sep (field :: fields) = field ++ sep :: join sep fields := by simp [join]
    rw [htext,cut_append (h field (List.mem_cons_self ..)),hrest]

theorem cut_length (text : List α) : (cut sep text).1.length = text.count sep := by
  induction text with
  | nil => rfl
  | cons a text ih =>
    by_cases ha : a = sep
    · simp [cut,ha,ih]
    · cases hfields : (cut sep text).1 with
      | nil => simp_all [cut]
      | cons field fields => simp_all [cut]

theorem count_join (fields : List (List α)) :
    (join sep fields).count sep = fields.length+(fields.map (List.count sep)).sum := by
  induction fields with
  | nil => rfl
  | cons field fields ih =>
    have htext : join sep (field :: fields) = field ++ sep :: join sep fields := by simp [join]
    rw [htext,List.count_append,List.count_cons_self,ih,List.map_cons,List.sum_cons,List.length_cons]
    omega

theorem cut_join_length_iff (fields : List (List α)) :
    (cut sep (join sep fields)).1.length = fields.length ↔ ∀ field ∈ fields, sep ∉ field := by
  constructor
  · intro h field hfield hsep
    rw [cut_length,count_join] at h
    have hnone : (fields.map (List.count sep)).sum = 0 := by omega
    have hzero := List.sum_eq_zero_iff_forall_eq_nat.mp hnone (field.count sep) (List.mem_map_of_mem hfield)
    exact List.count_eq_zero.mp hzero hsep
  · intro h
    rw [cut_join h]

end Delimited
