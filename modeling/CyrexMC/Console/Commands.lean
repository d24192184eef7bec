import CyrexMC.ThirdParty
import CyrexMC.Lib.Table
import CyrexMC.Lib.Numerals
import CyrexMC.Lib.Text
import CyrexMC.Session.NetworkSession
import Mathlib.Data.List.Induction
set_option autoImplicit false

/-! `command/`: what a line on the console does. -/

namespace CyrexMC

inductive PermissionLevel where
  | PLAYER
  | OP
  | CONSOLE
  deriving DecidableEq, Repr

def PermissionLevel.value : PermissionLevel → Int
  | .PLAYER => 0
  | .OP => 1
  | .CONSOLE => 2

structure Permission where
  node : Bytes
  level : PermissionLevel

/-- The members of the server that its commands use. -/
structure ServerControl where
  running : Bool := true
  players : List Guid := []
  maxPlayers : UInt32
  port : UInt16
  deriving DecidableEq, Repr

def ServerControl.stop (c : ServerControl) : ServerControl := { c with running := false, players := [] }

inductive Log where
  | error (message : Bytes)
  /-- `util::logServerStatus`. -/
  | status
  /-- The numbers in the text of `ServerInfoCommand`. -/
  | information (playerCount : Nat) (maxPlayers : UInt32) (port : UInt16)
  deriving DecidableEq, Repr

structure CommandContext where
  raw : Bytes
  args : List Bytes
  sourceLevel : PermissionLevel

structure CommandBase where
  name : Bytes
  aliases : List Bytes := []
  description : Bytes
  permission : Permission
  execute : CommandContext → ServerControl → ServerControl × List Log

def StopCommand : CommandBase :=
  { name := ascii "stop", aliases := [ascii "shutdown",ascii "exit"], description := ascii "Stops the server",
    permission := ⟨ascii "server.stop",.CONSOLE⟩, execute := fun _ c => (c.stop,[]) }

def PerformanceCommand : CommandBase :=
  { name := ascii "performance", description := ascii "Shows server performance stats",
    permission := ⟨ascii "server.performance",.OP⟩, execute := fun _ c => (c,[.status]) }

def ServerInfoCommand : CommandBase :=
  { name := ascii "serverinfo", aliases := [ascii "info",ascii "sinfo"],
    description := ascii "Shows server info that may or may not be helpful", permission := ⟨ascii "server.info",.OP⟩,
    execute := fun _ c => (c,[.information c.players.length c.maxPlayers c.port]) }

def CommandBase.names (command : CommandBase) : List Bytes := command.name :: command.aliases

structure CommandRegistry where
  lookup : Bytes → Option CommandBase := fun _ => none
  storage : List CommandBase := []

namespace CommandRegistry

def registerCommand (r : CommandRegistry) (command : CommandBase) : CommandRegistry :=
  { lookup := Assignments.run r.lookup (command.names.map fun name => .put name command)
    storage := r.storage ++ [command] }

def find (r : CommandRegistry) (name : Bytes) : Option CommandBase := r.lookup name

end CommandRegistry

namespace CommandManager

def registerDefaults (r : CommandRegistry) : CommandRegistry :=
  ((r.registerCommand StopCommand).registerCommand PerformanceCommand).registerCommand ServerInfoCommand

def hasPermission (source : PermissionLevel) (required : Permission) : Bool := source.value ≥ required.level.value

def notFound : Log := .error (ascii "The command you have entered does not exist.")

def executeConsole (r : CommandRegistry) (line : Bytes) (c : ServerControl) : ServerControl × List Log :=
  match Words.split Decimal.isSpace line with
  | [] => (c,[])
  | name :: args =>
    match r.find name with
    | none => (c,[notFound])
    | some command =>
      if hasPermission .CONSOLE command.permission then
        command.execute { raw := line, args, sourceLevel := .CONSOLE } c
      else (c,[notFound])

end CommandManager

/-- A name stands for the last command that was registered under it. -/
theorem CommandRegistry.find_foldl (commands : List CommandBase) (name : Bytes) :
    (commands.foldl registerCommand {}).find name = commands.reverse.find? fun command => name ∈ command.names := by
  induction commands using List.reverseRecOn with
  | nil => rfl
  | append_singleton commands command ih =>
    rw [List.foldl_append,List.reverse_append,List.foldl_cons,List.foldl_nil,List.reverse_singleton,List.singleton_append]
    simp only [find,registerCommand,Assignments.run_puts]
    by_cases hmem : name ∈ command.names
    · simp [hmem]
    · simpa [hmem,find] using ih

namespace CommandManager

theorem hasPermission_console (required : Permission) : hasPermission .CONSOLE required = true := by
  cases hlevel : required.level <;> simp [hasPermission,hlevel,PermissionLevel.value]

/-- What the words of a line ask for: the last command that was registered under the first of them
gets the others. -/
def perform (commands : List CommandBase) (line : Bytes) (c : ServerControl) : List Bytes → ServerControl × List Log
  | [] => (c,[])
  | name :: args =>
    match commands.reverse.find? fun command => name ∈ command.names with
    | none => (c,[notFound])
    | some command => command.execute { raw := line, args, sourceLevel := .CONSOLE } c

theorem executeConsole_perform (commands : List CommandBase) (line : Bytes) (c : ServerControl) :
    executeConsole (commands.foldl CommandRegistry.registerCommand {}) line c =
      perform commands line c (Words.split Decimal.isSpace line) := by
  rw [executeConsole]
  cases Words.split Decimal.isSpace line with
  | nil => rfl
  | cons name args =>
    simp only [CommandRegistry.find_foldl,perform]
    cases hfind : commands.reverse.find? (fun command => decide (name ∈ command.names)) with
    | none => rfl
    | some command => simp [hasPermission_console]

/-- Whatever commands were registered, and however the words of a line are spaced. -/
theorem executeConsole_last (commands : List CommandBase) (line : Bytes) (ws : List Bytes)
    (hline : Words.Renders Decimal.isSpace ws line) (c : ServerControl) :
    executeConsole (commands.foldl CommandRegistry.registerCommand {}) line c = perform commands line c ws := by
  have hsplit := (Words.split_eq_iff line ws).mpr hline
  rw [executeConsole_perform,hsplit]

/-- Two commands share the name `exit`, and the line has two blanks and an argument. -/
theorem executeConsole_last_shared :
    let c : ServerControl := { players := [⟨1⟩], maxPlayers := 20, port := 19132 }
    let exits : CommandBase := { ServerInfoCommand with aliases := [ascii "exit"] }
    executeConsole ([StopCommand,exits].foldl CommandRegistry.registerCommand {}) (ascii "  exit now") c =
        (c,[.information 1 20 19132]) ∧
      executeConsole ([exits,StopCommand].foldl CommandRegistry.registerCommand {}) (ascii "  exit now") c =
        (c.stop,[]) := by
  intro c exits
  have hline : Words.Renders Decimal.isSpace [ascii "exit",ascii "now"] (ascii "  exit now") :=
    (Words.split_eq_iff _ _).mp (by decide)
  have hexit : ascii "exit" ∈ StopCommand.names ∧ ascii "exit" ∈ exits.names := by decide
  constructor
  · have hfind : ([StopCommand,exits].reverse.find? fun command => decide (ascii "exit" ∈ command.names)) = some exits := by
      simp [hexit.2]
    rw [executeConsole_last [StopCommand,exits] _ _ hline c]
    simp only [perform,hfind]
    rfl
  · have hfind : ([exits,StopCommand].reverse.find? fun command => decide (ascii "exit" ∈ command.names)) =
        some StopCommand := by
      simp [hexit.1]
    rw [executeConsole_last [exits,StopCommand] _ _ hline c]
    simp only [perform,hfind]
    rfl

/-- The first word of the line is `stop`, `shutdown` or `exit`. -/
def stopsServer (line : Bytes) : Bool :=
  match Words.split Decimal.isSpace line with
  | [] => false
  | name :: _ => name ∈ StopCommand.names

theorem names_disjoint : ∀ name ∈ StopCommand.names, name ∉ PerformanceCommand.names ∧ name ∉ ServerInfoCommand.names := by
  decide

theorem executeConsole_defaults (line : Bytes) (c : ServerControl) :
    (executeConsole (registerDefaults {}) line c).1 = if stopsServer line then c.stop else c := by
  have hlast := executeConsole_perform [StopCommand,PerformanceCommand,ServerInfoCommand] line c
  change executeConsole (registerDefaults {}) line c = _ at hlast
  rw [hlast,stopsServer]
  cases Words.split Decimal.isSpace line with
  | nil => rfl
  | cons name args =>
    by_cases hstop : name ∈ StopCommand.names
    · obtain ⟨hperformance,hinfo⟩ := names_disjoint name hstop
      simp [perform,hstop,hperformance,hinfo]
      rfl
    · by_cases hinfo : name ∈ ServerInfoCommand.names
      · simp [perform,hstop,hinfo]
        rfl
      · by_cases hperformance : name ∈ PerformanceCommand.names
        · simp [perform,hstop,hinfo,hperformance]
          rfl
        · simp [perform,hstop,hinfo,hperformance]

end CommandManager

end CyrexMC
