import CyrexMC.Console.Commands
import CyrexMC.Lib.Runs
import CyrexMC.Session.RaknetHandler
set_option autoImplicit false

/-! `Server::run`, `Server::commandLoop` and `Server::stop`: two threads and the flag between them. -/

namespace CyrexMC
open CommandManager

inductive MainPhase where
  | testing
  | polling
  | sleeping
  | joining
  | returned
  /-- An exception has left `run`; it takes the thread that nobody has joined along. -/
  | terminated (f : Fault)
  deriving DecidableEq

inductive ConsolePhase where
  | testing
  | reading
  | executing (line : Bytes)
  | ended
  deriving DecidableEq

/-- What has been done so far by either thread. -/
inductive Action where
  | polled
  | executed (line : Bytes)

structure ServerProcess where
  control : ServerControl
  handler : RaknetHandler
  main : MainPhase := .testing
  console : ConsolePhase := .testing
  /-- The lines on the console that were not read yet, and whether its end is behind them. -/
  input : List Bytes := []
  closed : Bool := false
  typed : List Bytes := []
  done : List Action := []

namespace ServerProcess

inductive Event where
  /-- The next action of `run`; a poll finds these packets. -/
  | main (packets : List RakNetPacket)
  | console
  | line (line : Bytes)
  | close

variable (tp : ThirdParty)

def mainStep (packets : List RakNetPacket) (p : ServerProcess) : ServerProcess :=
  match p.main with
  | .testing => { p with main := if p.control.running then .polling else .joining }
  | .polling =>
    match RaknetHandler.poll tp packets p.handler with
    | .ok _ handler => { p with handler, main := .sleeping, done := p.done ++ [.polled] }
    | .error f handler => { p with handler, main := .terminated f, done := p.done ++ [.polled] }
  | .sleeping => { p with main := .testing }
  | .joining => if p.console = .ended then { p with main := .returned } else p
  | .returned | .terminated _ => p

def consoleStep (p : ServerProcess) : ServerProcess :=
  match p.console with
  | .testing => { p with console := if p.control.running then .reading else .ended }
  | .reading =>
    match p.input with
    | line :: input => { p with input, console := .executing line }
    | [] => if p.closed then { p with console := .ended } else p
  | .executing line =>
    { p with control := (executeConsole (registerDefaults {}) line p.control).1, console := .testing,
             done := p.done ++ [.executed line] }
  | .ended => p

def isTerminated (p : ServerProcess) : Bool :=
  match p.main with
  | .terminated _ => true
  | _ => false

def step (p : ServerProcess) (e : Event) : ServerProcess :=
  if p.isTerminated then p else
  match e with
  | .main packets => mainStep tp packets p
  | .console => consoleStep p
  | .line line => if p.closed then p else { p with input := p.input ++ [line], typed := p.typed ++ [line] }
  | .close => { p with closed := true }

def run (p : ServerProcess) (events : List Event) : ServerProcess := events.foldl (step tp) p

end ServerProcess

/-- The server as its constructor leaves it, when `run` is called. -/
structure ServerProcess.Starts (p : ServerProcess) : Prop where
  running : p.control.running = true
  main : p.main = .testing
  console : p.console = .testing
  input : p.input = []
  typed : p.typed = []
  done : p.done = []

namespace Action

def line? : Action → Option Bytes
  | .polled => none
  | .executed line => some line

def stops : Action → Bool
  | .polled => false
  | .executed line => stopsServer line

def lines (done : List Action) : List Bytes := done.filterMap line?

/-- What was done behind the first line that stops the server. -/
def behindStop (done : List Action) : List Action := (done.dropWhile fun a => !a.stops).tail

theorem behindStop_concat (done : List Action) (a : Action) :
    behindStop (done ++ [a]) = if done.any stops then behindStop done ++ [a] else [] := by
  induction done with
  | nil => cases hs : a.stops <;> simp [behindStop,hs]
  | cons b done ih =>
    cases hb : b.stops with
    | true => simp [behindStop,hb]
    | false => simpa [behindStop,hb] using ih

end Action

def ConsolePhase.pending : ConsolePhase → List Bytes
  | .executing line => [line]
  | _ => []

namespace ServerProcess
open CyrexMC.Action

structure Inv (p : ServerProcess) : Prop where
  read : lines p.done ++ (p.console.pending ++ p.input) = p.typed
  running : p.control.running = !p.done.any stops
  polls : ∀ a ∈ behindStop p.done, a = .polled
  late : (behindStop p.done).length+(if p.main = .polling then 1 else 0) ≤ 1
  idle : p.control.running = false → p.console = .testing ∨ p.console = .ended
  exit : p.main = .joining ∨ p.main = .returned → p.control.running = false
  joined : p.main = .returned → p.console = .ended
  eof : p.console = .ended → p.control.running = true → p.closed = true ∧ p.input = []

theorem Starts.inv {p : ServerProcess} (h : p.Starts) : Inv p := by
  refine ⟨?_,?_,?_,?_,?_,?_,?_,?_⟩ <;>
    simp [h.running,h.main,h.console,h.input,h.typed,h.done,lines,behindStop,ConsolePhase.pending]

variable {tp : ThirdParty}

theorem inv_mainStep {p : ServerProcess} (h : Inv p) (packets : List RakNetPacket) : Inv (mainStep tp packets p) := by
  have hpoll : p.main = .polling → ∀ (handler : RaknetHandler) (main : MainPhase),
      main ≠ .polling → main ≠ .joining → main ≠ .returned →
      Inv { p with handler, main, done := p.done ++ [.polled] } := by
    intro hmain handler main hp hj hr
    have hlate := h.late
    rw [if_pos hmain] at hlate
    have hnil : behindStop p.done = [] := List.length_eq_zero_iff.mp (by omega)
    have hbehind : behindStop (p.done ++ [.polled]) = [] ∨ behindStop (p.done ++ [.polled]) = [.polled] := by
      rw [behindStop_concat,hnil]
      split
      · exact Or.inr rfl
      · exact Or.inl rfl
    refine ⟨?_,?_,?_,?_,h.idle,?_,fun hm => absurd hm hr,h.eof⟩
    · simpa [lines,line?,List.filterMap_cons] using h.read
    · simpa [stops] using h.running
    · rcases hbehind with hb | hb <;> simp [hb]
    · rcases hbehind with hb | hb <;> simp [hb,hp]
    · rintro (hm | hm)
      · exact absurd hm hj
      · exact absurd hm hr
  cases hmain : p.main with
  | testing =>
    simp only [mainStep,hmain]
    cases hrun : p.control.running with
    | true =>
      have hany : p.done.any stops = false := by simpa [hrun] using h.running
      have hnone : behindStop p.done = [] := by
        have hdrop : p.done.dropWhile (fun a => !a.stops) = [] := by
          rw [List.dropWhile_eq_nil_iff]
          intro a ha
          simpa using List.any_eq_false.mp hany a ha
        rw [behindStop,hdrop,List.tail_nil]
      exact ⟨h.read,by rw [hrun,hany]; rfl,h.polls,by simp [hnone],h.idle,by simp,by simp,h.eof⟩
    | false =>
      have hlate := h.late
      rw [hmain] at hlate
      exact ⟨h.read,h.running,h.polls,by simpa using hlate,h.idle,fun _ => hrun,by simp,h.eof⟩
  | polling =>
    simp only [mainStep,hmain]
    split
    · exact hpoll hmain _ _ (by simp) (by simp) (by simp)
    · exact hpoll hmain _ _ (by simp) (by simp) (by simp)
  | sleeping =>
    simp only [mainStep,hmain]
    have hlate := h.late
    rw [hmain] at hlate
    exact ⟨h.read,h.running,h.polls,by simpa using hlate,h.idle,by simp,by simp,h.eof⟩
  | joining =>
    simp only [mainStep,hmain]
    split
    · rename_i hended
      have hlate := h.late
      rw [hmain] at hlate
      exact ⟨h.read,h.running,h.polls,by simpa using hlate,h.idle,fun _ => h.exit (Or.inl hmain),fun _ => hended,
        h.eof⟩
    · exact h
  | returned =>
    simp only [mainStep,hmain]
    exact h
  | terminated f =>
    simp only [mainStep,hmain]
    exact h

theorem inv_consoleStep {p : ServerProcess} (h : Inv p) : Inv (consoleStep p) := by
  cases hconsole : p.console with
  | testing =>
    simp only [consoleStep,hconsole]
    have hread := h.read
    rw [hconsole] at hread
    cases hrun : p.control.running with
    | true =>
      refine ⟨hread,h.running,h.polls,h.late,fun hf => ?_,h.exit,fun hm => ?_,fun he => nomatch he⟩
      · rw [hrun] at hf
        cases hf
      · rw [h.joined hm] at hconsole
        cases hconsole
    | false =>
      refine ⟨hread,h.running,h.polls,h.late,fun _ => Or.inr rfl,h.exit,fun _ => rfl,fun _ ht => ?_⟩
      rw [hrun] at ht
      cases ht
  | reading =>
    simp only [consoleStep,hconsole]
    have hread := h.read
    rw [hconsole] at hread
    have hrun : p.control.running = true := by
      by_contra hf
      rcases h.idle (by simpa using hf) with hc | hc <;> rw [hc] at hconsole <;> cases hconsole
    have hstay : ∀ m : MainPhase, p.main = m → m ≠ .returned := fun m hm hr => by
      have hended := h.joined (hm.trans hr)
      rw [hended] at hconsole
      cases hconsole
    cases hinput : p.input with
    | nil =>
      rw [hinput] at hread
      dsimp only
      split
      · rename_i hclosed
        exact ⟨hread,h.running,h.polls,h.late,fun _ => Or.inr rfl,h.exit,fun _ => rfl,fun _ _ => ⟨hclosed,rfl⟩⟩
      · exact h
    | cons line input =>
      rw [hinput] at hread
      refine ⟨hread,h.running,h.polls,h.late,fun hf => ?_,h.exit,fun hm => absurd hm (hstay _ rfl),
        fun he => nomatch he⟩
      rw [hrun] at hf
      cases hf
  | executing line =>
    simp only [consoleStep,hconsole]
    have hread := h.read
    rw [hconsole] at hread
    have hrun : p.control.running = true := by
      by_contra hf
      rcases h.idle (by simpa using hf) with hc | hc <;> rw [hc] at hconsole <;> cases hconsole
    have hany : p.done.any stops = false := by simpa [hrun] using h.running
    have hbehind : behindStop (p.done ++ [.executed line]) = [] := by
      rw [behindStop_concat,hany]
      rfl
    refine ⟨?_,?_,by simp [hbehind],by simp only [hbehind]; split <;> simp,fun _ => Or.inl rfl,fun hm => ?_,fun hm => ?_,
      fun he => nomatch he⟩
    · rw [← hread]
      simp [lines,line?,ConsolePhase.pending]
    · rw [executeConsole_defaults,List.any_append,hany]
      cases hs : stopsServer line <;> simp [stops,hs,ServerControl.stop,hrun]
    · rw [h.exit hm] at hrun
      cases hrun
    · rw [h.joined hm] at hconsole
      cases hconsole
  | ended =>
    simp only [consoleStep,hconsole]
    exact h

theorem inv_serverStep {p : ServerProcess} (h : Inv p) (e : Event) : Inv (step tp p e) := by
  unfold step
  split
  · exact h
  cases e with
  | main packets => exact inv_mainStep h packets
  | console => exact inv_consoleStep h
  | line line =>
    simp only
    split
    · exact h
    · rename_i hopen
      refine ⟨?_,h.running,h.polls,h.late,h.idle,h.exit,h.joined,fun he hrun => absurd (h.eof he hrun).1 hopen⟩
      rw [← h.read]
      simp
  | close => exact ⟨h.read,h.running,h.polls,h.late,h.idle,h.exit,h.joined,fun he hrun => ⟨rfl,(h.eof he hrun).2⟩⟩

theorem inv_run {p : ServerProcess} (h : Inv p) (events : List Event) : Inv (run tp p events) := by
  induction events generalizing p with
  | nil => exact h
  | cons e events ih => exact ih (inv_serverStep h e)

/-- In every interleaving of the two threads: the lines that are typed are executed in their order;
behind a line that stops the server no other is executed, and one poll is made at most; and without
such a line `run` goes on, also when the console has ended. -/
theorem run_stops {p : ServerProcess} (hp : p.Starts) (events : List Event) :
    let q := run tp p events
    lines q.done <+: q.typed ∧ (behindStop q.done = [] ∨ behindStop q.done = [.polled]) ∧
    (q.control.running = false ↔ ∃ line ∈ lines q.done, stopsServer line = true) ∧
    (q.main = .joining ∨ q.main = .returned → ∃ line ∈ lines q.done, stopsServer line = true) ∧
    (q.main = .returned → q.console = .ended) := by
  intro q
  have h : Inv q := inv_run hp.inv events
  have hflag : q.control.running = false ↔ ∃ line ∈ lines q.done, stopsServer line = true := by
    rw [h.running,Bool.not_eq_false',List.any_eq_true]
    constructor
    · rintro ⟨a,ha,hs⟩
      cases a with
      | polled => cases hs
      | executed line => exact ⟨line,List.mem_filterMap.mpr ⟨_,ha,rfl⟩,hs⟩
    · rintro ⟨line,hline,hs⟩
      obtain ⟨a,ha,hl⟩ := List.mem_filterMap.mp hline
      cases a with
      | polled => cases hl
      | executed l =>
        cases hl
        exact ⟨_,ha,hs⟩
  refine ⟨⟨_,h.read⟩,?_,hflag,fun hm => hflag.mp (h.exit hm),h.joined⟩
  have hlate := h.late
  cases hb : behindStop q.done with
  | nil => exact Or.inl rfl
  | cons a rest =>
    rw [hb,List.length_cons] at hlate
    have hrest : rest = [] := List.length_eq_zero_iff.mp (by omega)
    have ha := h.polls a (by rw [hb]; exact List.mem_cons_self ..)
    rw [ha,hrest]
    exact Or.inr rfl

def fresh : ServerProcess :=
  { control := { maxPlayers := 20, port := 19132 }, handler := ⟨Table.empty,.bare⟩ }

theorem fresh_starts : fresh.Starts := ⟨rfl,rfl,rfl,rfl,rfl,rfl⟩

theorem run_stops_late :
    let events := [Event.main [],.line (ascii "stop"),.console,.console,.console,.main []]
    (run .storing fresh events).done = [.executed (ascii "stop"),.polled] ∧
    lines (run .storing fresh events).done <+: (run .storing fresh events).typed := by
  intro events
  exact ⟨rfl,(run_stops fresh_starts events).1⟩

def consoleWork (p : ServerProcess) : Nat :=
  let before := p.input.findIdx stopsServer
  match p.console with
  | .testing => if p.control.running then 3*before+4 else 1
  | .reading => 3*before+3
  | .executing line => if stopsServer line then 2 else 3*before+5
  | .ended => 0

def mainWork (p : ServerProcess) : Nat :=
  match p.main with
  | .polling => 4
  | .sleeping => 3
  | .testing => 2
  | .joining => 1
  | .returned | .terminated _ => 0

def work (p : ServerProcess) : Nat :=
  if p.isTerminated then 0 else if p.consoleWork = 0 then p.mainWork else p.consoleWork+4

def Calls (work : Nat) (e : Event) : Prop := if 4 < work then e = .console else ∃ packets, e = .main packets

structure Stopping (p : ServerProcess) : Prop where
  inv : Inv p
  stop : ∃ line ∈ p.typed, stopsServer line = true

theorem mainWork_le (p : ServerProcess) : p.mainWork ≤ 4 := by
  unfold mainWork
  split <;> omega

theorem Stopping.coming {p : ServerProcess} (h : Stopping p) (hrun : p.control.running = true) :
    (∃ line, p.console = .executing line ∧ stopsServer line = true) ∨ ∃ line ∈ p.input, stopsServer line = true := by
  obtain ⟨line,hline,hs⟩ := h.stop
  rw [← h.inv.read,List.mem_append,List.mem_append] at hline
  rcases hline with hline | hline | hline
  · obtain ⟨a,ha,hl⟩ := List.mem_filterMap.mp hline
    have hnone := h.inv.running
    rw [hrun,eq_comm,Bool.not_eq_true',List.any_eq_false] at hnone
    cases a with
    | polled => cases hl
    | executed l =>
      cases hl
      exact absurd hs (hnone _ ha)
  · cases hc : p.console with
    | executing l =>
      rw [hc,ConsolePhase.pending,List.mem_singleton] at hline
      exact Or.inl ⟨l,rfl,hline ▸ hs⟩
    | testing => simp [hc,ConsolePhase.pending] at hline
    | reading => simp [hc,ConsolePhase.pending] at hline
    | ended => simp [hc,ConsolePhase.pending] at hline
  · exact Or.inr ⟨line,hline,hs⟩

theorem Inv.runs {p : ServerProcess} (h : Inv p) (hconsole : p.console ≠ .testing ∧ p.console ≠ .ended) :
    p.control.running = true := by
  by_contra hf
  rcases h.idle (by simpa using hf) with hc | hc
  · exact hconsole.1 hc
  · exact hconsole.2 hc

theorem Stopping.over {p : ServerProcess} (h : Stopping p) (hwork : p.consoleWork = 0) :
    p.console = .ended ∧ p.control.running = false := by
  have hended : p.console = .ended := by
    cases hc : p.console with
    | testing =>
      simp only [consoleWork,hc] at hwork
      split at hwork <;> omega
    | reading =>
      simp only [consoleWork,hc] at hwork
      omega
    | executing line =>
      simp only [consoleWork,hc] at hwork
      split at hwork <;> omega
    | ended => rfl
  refine ⟨hended,?_⟩
  by_contra hrun
  have hrun : p.control.running = true := by simpa using hrun
  rcases h.coming hrun with ⟨line,hc,-⟩ | ⟨line,hline,-⟩
  · rw [hended] at hc
    cases hc
  · rw [(h.inv.eof hended hrun).2] at hline
    cases hline

theorem consoleWork_consoleStep {p : ServerProcess} (h : Stopping p) (hpos : 0 < p.consoleWork) :
    (consoleStep p).consoleWork < p.consoleWork := by
  cases hc : p.console with
  | testing => cases hrun : p.control.running <;> simp [consoleWork,consoleStep,hc,hrun]
  | reading =>
    have hrun := h.inv.runs (by simp [hc])
    rcases h.coming hrun with ⟨line,hline,-⟩ | ⟨line,hline,hs⟩
    · rw [hc] at hline
      cases hline
    · cases hinput : p.input with
      | nil =>
        rw [hinput] at hline
        cases hline
      | cons first input =>
        cases hfirst : stopsServer first with
        | true => simp [consoleWork,consoleStep,hc,hinput,hfirst]
        | false =>
          simp only [consoleWork,consoleStep,hc,hinput,hfirst,List.findIdx_cons,cond_false,Bool.false_eq_true,if_false]
          omega
  | executing line =>
    have hrun := h.inv.runs (by simp [hc])
    cases hs : stopsServer line <;> simp [consoleWork,consoleStep,hc,executeConsole_defaults,hs,hrun,ServerControl.stop]
  | ended => simp [consoleWork,hc] at hpos

theorem consoleWork_mainStep (packets : List RakNetPacket) (p : ServerProcess) :
    (mainStep tp packets p).consoleWork = p.consoleWork := by
  cases hm : p.main <;> simp only [mainStep,hm] <;> first | rfl | (split <;> rfl)

theorem mainWork_mainStep {p : ServerProcess} (packets : List RakNetPacket) (hended : p.console = .ended)
    (hrun : p.control.running = false) (hpos : 0 < p.mainWork) : (mainStep tp packets p).mainWork < p.mainWork := by
  cases hm : p.main with
  | polling => cases hpoll : RaknetHandler.poll tp packets p.handler <;> simp [mainStep,hm,mainWork,hpoll]
  | _ => simp_all [mainStep,mainWork]

theorem consoleWork_line {p : ServerProcess} (h : Stopping p) (line : Bytes) :
    ({ p with input := p.input ++ [line], typed := p.typed ++ [line] } : ServerProcess).consoleWork = p.consoleWork := by
  have hsame : (∃ l ∈ p.input, stopsServer l = true) →
      (p.input ++ [line]).findIdx stopsServer = p.input.findIdx stopsServer := by
    intro hstop
    rw [List.findIdx_append,if_pos (List.findIdx_lt_length.mpr hstop)]
  cases hrun : p.control.running with
  | true =>
    rcases h.coming hrun with ⟨l,hc,hs⟩ | hstop
    · simp [consoleWork,hc,hs]
    · simp only [consoleWork,hsame hstop]
  | false => rcases h.inv.idle hrun with hc | hc <;> simp [consoleWork,hc,hrun]

theorem typed_step (p : ServerProcess) (e : Event) : p.typed <+: (step tp p e).typed := by
  unfold step
  split
  · exact List.prefix_rfl
  cases e with
  | main packets =>
    have hsame : (mainStep tp packets p).typed = p.typed := by
      cases hm : p.main <;> simp only [mainStep,hm] <;> first | rfl | (split <;> rfl)
    exact hsame ▸ List.prefix_rfl
  | console =>
    have hsame : (consoleStep p).typed = p.typed := by
      cases hc : p.console <;> simp only [consoleStep,hc]
      case reading =>
        cases p.input with
        | nil =>
          dsimp only
          split <;> rfl
        | cons line input => rfl
    exact hsame ▸ List.prefix_rfl
  | line line =>
    dsimp only
    split
    · exact List.prefix_rfl
    · exact List.prefix_append ..
  | close => exact List.prefix_rfl

theorem stopping_step {p : ServerProcess} (h : Stopping p) (e : Event) : Stopping (step tp p e) := by
  obtain ⟨line,hline,hs⟩ := h.stop
  exact ⟨inv_serverStep h.inv e,line,(typed_step p e).subset hline,hs⟩

theorem isTerminated_consoleStep (p : ServerProcess) : (consoleStep p).main = p.main := by
  cases hc : p.console <;> simp only [consoleStep,hc]
  case reading =>
    cases p.input with
    | nil =>
      dsimp only
      split <;> rfl
    | cons line input => rfl

theorem work_console {p : ServerProcess} (h : Stopping p) (hup : p.isTerminated = false) :
    (consoleStep p).work ≤ p.work ∧ (0 < p.consoleWork → (consoleStep p).work < p.work) := by
  have hmain := isTerminated_consoleStep p
  have hup' : (consoleStep p).isTerminated = false := by rw [isTerminated,hmain]; exact hup
  by_cases hpos : 0 < p.consoleWork
  · have hlower := consoleWork_consoleStep h hpos
    have hle := mainWork_le (consoleStep p)
    have hlt : (consoleStep p).work < p.work := by
      simp only [work,hup,hup',Bool.false_eq_true,if_false]
      split <;> split <;> omega
    exact ⟨Nat.le_of_lt hlt,fun _ => hlt⟩
  · have hended := (h.over (by omega)).1
    have hsame : consoleStep p = p := by simp [consoleStep,hended]
    exact ⟨by rw [hsame],fun hp => absurd hp hpos⟩

theorem work_main {p : ServerProcess} (h : Stopping p) (hup : p.isTerminated = false) (packets : List RakNetPacket) :
    (mainStep tp packets p).work ≤ p.work ∧
    (p.consoleWork = 0 → 0 < p.work → (mainStep tp packets p).work < p.work) := by
  have hconsole : (mainStep tp packets p).consoleWork = p.consoleWork := consoleWork_mainStep packets p
  by_cases hzero : p.consoleWork = 0
  · obtain ⟨hended,hrun⟩ := h.over hzero
    have hwork : p.work = p.mainWork := by simp [work,hup,hzero]
    have hle : (mainStep tp packets p).work ≤ (mainStep tp packets p).mainWork := by
      simp only [work,hconsole,hzero,if_true]
      split <;> omega
    by_cases hpos : 0 < p.mainWork
    · have hlower : (mainStep tp packets p).mainWork < p.mainWork := mainWork_mainStep packets hended hrun hpos
      exact ⟨by omega,fun _ _ => by omega⟩
    · have hsame : mainStep tp packets p = p := by
        cases hm : p.main <;> simp_all [mainWork,mainStep]
      rw [hsame]
      exact ⟨Nat.le_refl _,fun _ hw => by omega⟩
  · refine ⟨?_,fun hz => absurd hz hzero⟩
    simp only [work,hup,hconsole,hzero,Bool.false_eq_true,if_false]
    split <;> omega

theorem descends (tp : ThirdParty) : Rounds.Descends (step tp) Stopping work Calls := by
  have hdead : ∀ p : ServerProcess, p.isTerminated = true → ∀ e, step tp p e = p := fun p hp e => by simp [step,hp]
  have hstep : ∀ (p : ServerProcess) (e : Event), Stopping p → (step tp p e).work ≤ p.work ∧
      (0 < p.work → Calls p.work e → (step tp p e).work < p.work) := by
    intro p e h
    cases hup : p.isTerminated with
    | true =>
      rw [hdead p hup e]
      exact ⟨Nat.le_refl _,fun hpos => by simp [work,hup] at hpos⟩
    | false =>
      have hmain := mainWork_le p
      cases e with
      | main packets =>
        have hs : step tp p (.main packets) = mainStep tp packets p := by simp [step,hup]
        rw [hs]
        obtain ⟨hle,hlt⟩ := @work_main tp p h hup packets
        refine ⟨hle,fun hpos hcalls => hlt ?_ hpos⟩
        by_contra hne
        have hmore : 4 < p.work := by
          simp only [work,hup,hne,Bool.false_eq_true,if_false]
          omega
        rw [Calls,if_pos hmore] at hcalls
        cases hcalls
      | console =>
        have hs : step tp p .console = consoleStep p := by simp [step,hup]
        rw [hs]
        obtain ⟨hle,hlt⟩ := work_console h hup
        refine ⟨hle,fun hpos hcalls => hlt ?_⟩
        by_contra hne
        have hzero : p.consoleWork = 0 := by omega
        have hless : ¬ 4 < p.work := by
          simp only [work,hup,hzero,Bool.false_eq_true,if_false,if_true]
          omega
        rw [Calls,if_neg hless] at hcalls
        obtain ⟨packets,he⟩ := hcalls
        cases he
      | line line =>
        have hsame : (step tp p (.line line)).work = p.work := by
          simp only [step,hup,Bool.false_eq_true,if_false]
          split
          · rfl
          · simp only [work,consoleWork_line h line]
            rfl
        refine ⟨Nat.le_of_eq hsame,fun _ hcalls => ?_⟩
        unfold Calls at hcalls
        split at hcalls
        · cases hcalls
        · obtain ⟨packets,he⟩ := hcalls
          cases he
      | close =>
        have hsame : (step tp p .close).work = p.work := by
          simp only [step,hup,Bool.false_eq_true,if_false]
          rfl
        refine ⟨Nat.le_of_eq hsame,fun _ hcalls => ?_⟩
        unfold Calls at hcalls
        split at hcalls
        · cases hcalls
        · obtain ⟨packets,he⟩ := hcalls
          cases he
  exact ⟨fun _ e h => stopping_step h e,fun p e h => (hstep p e h).1,fun p e h => (hstep p e h).2⟩

theorem work_le {p : ServerProcess} : p.work ≤ 3*p.input.length+9 := by
  have hmain := mainWork_le p
  have hbefore : p.input.findIdx stopsServer ≤ p.input.length := List.findIdx_le_length
  have hconsole : p.consoleWork ≤ 3*p.input.length+5 := by
    cases hc : p.console with
    | testing =>
      simp only [consoleWork,hc]
      split <;> omega
    | reading =>
      simp only [consoleWork,hc]
      omega
    | executing line =>
      simp only [consoleWork,hc]
      split <;> omega
    | ended => simp [consoleWork,hc]
  unfold work
  split
  · omega
  · split <;> omega

/-- Once a line that stops the server is typed, `run` comes to its end in any schedule that gives
both threads their turns, unless a poll throws. -/
theorem run_returns {p : ServerProcess} (hp : p.Starts) (events : List Event)
    (hstop : ∃ line ∈ (run tp p events).typed, stopsServer line = true) (rounds : List (List Event))
    (hrounds : ∀ r ∈ rounds, Event.console ∈ r ∧ ∃ packets, Event.main packets ∈ r)
    (hlong : 3*(run tp p events).input.length+9 ≤ rounds.length) :
    (run tp p (events ++ rounds.flatten)).main = .returned ∨
    ∃ f, (run tp p (events ++ rounds.flatten)).main = .terminated f := by
  have hq : Stopping (run tp p events) := ⟨inv_run hp.inv events,hstop⟩
  have hcalls : ∀ r ∈ rounds, ∀ n, 0 < n → ∃ e ∈ r, Calls n e := by
    intro r hr n _
    obtain ⟨hconsole,packets,hmain⟩ := hrounds r hr
    by_cases hn : 4 < n
    · exact ⟨_,hconsole,by rw [Calls,if_pos hn]⟩
    · exact ⟨_,hmain,by rw [Calls,if_neg hn]; exact ⟨packets,rfl⟩⟩
  have hzero := (descends tp).rounds rounds hcalls hq
  have hlast := ((descends tp).keeps_run rounds.flatten hq).1
  have hbound := work_le (p:=run tp p events)
  have hrun : run tp p (events ++ rounds.flatten) = rounds.flatten.foldl (step tp) (run tp p events) := List.foldl_append
  rw [← hrun] at hzero hlast
  generalize run tp p (events ++ rounds.flatten) = q at *
  have hdone : q.work = 0 := by omega
  cases hup : q.isTerminated with
  | true =>
    cases hm : q.main with
    | terminated f => exact Or.inr ⟨f,rfl⟩
    | _ => simp [isTerminated,hm] at hup
  | false =>
    left
    simp only [work,hup,Bool.false_eq_true,if_false] at hdone
    split at hdone
    · cases hm : q.main <;> simp_all [mainWork,isTerminated]
    · omega

theorem run_returns_twelve :
    let rounds := List.replicate 12 [Event.console,.main []]
    let q := run .storing fresh ([.line (ascii "exit")] ++ rounds.flatten)
    q.main = .returned ∨ ∃ f, q.main = .terminated f := by
  intro rounds q
  refine run_returns fresh_starts [.line (ascii "exit")] ⟨ascii "exit",?_,by decide⟩ rounds ?_ ?_
  · exact List.mem_singleton.mpr rfl
  · intro r hr
    rw [List.eq_of_mem_replicate hr]
    exact ⟨by simp,[],by simp⟩
  · exact Nat.le_refl 12

end ServerProcess

end CyrexMC
