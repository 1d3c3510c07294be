import WriteBack.CommandLine
import WriteBack.CommandLine.Report
import WriteBack.Config.Load
import WriteBack.Simulator.Traffic

/-!
# WriteBack.CommandLine.Execute

What the program does with its arguments. The file system and the clock stay outside: the contents of the
configuration file and the time that a run took are given.
-/

namespace WriteBack.CommandLine

/-- Why a command fails. -/
inductive Failure where
  | load (e : Config.LoadError)
  | geometry (e : GeometryError)
  | run (e : RunError)
deriving DecidableEq, Repr

/-- The wording of a failure. -/
def Failure.message : Failure → String
  | .load e => e.message
  | .geometry e => s!"invalid configuration: {e.message}"
  | .run e => e.message

/-- The outcome of a command that succeeded. -/
inductive Outcome where
  | run (outcome : RunOutcome)
  | geometry (g : Geometry)
deriving DecidableEq, Repr

/-- The options of a command. -/
def Command.options : Command → Options
  | .run o | .geometry o => o

/-- Runs generated traffic on a fresh simulator. -/
def simulate (config : Config) (o : Options) : Except Failure RunOutcome :=
  match Simulator.ofConfig config with
  | .error e => .error (.geometry e)
  | .ok sim =>
    let traffic := o.workload.generate sim.cache.geometry o.transactions o.seed
    match (Simulator.runTransactions traffic).run sim with
    | .error e _ => .error (.run e)
    | .ok _ sim =>
      .ok {
        workload := o.workload
        transactions := o.transactions
        seed := o.seed
        cycles := sim.cycle
        backingReads := sim.link.monitor.reads.size
        backingWrites := sim.link.monitor.writes.size
        counters := sim.cache.counters }

/-- Executes a command. The argument is what the configuration file holds, if the command names one. -/
def Command.execute (c : Command) (file : Option ByteArray) : Except Failure Outcome := do
  let config ← match c.options.config with
    | none => pure {}
    | some _ => (Config.load file).mapError .load
  match c with
  | .run o => .run <$> simulate config o
  | .geometry _ =>
    .geometry <$> (Geometry.ofConfig config.cache config.backing).mapError .geometry

/-- The lines that an outcome prints. -/
def Outcome.lines (o : Options) (host : Option Nat) : Outcome → List String
  | .run r => if o.json then jsonLines r.toJson else r.textLines host o.sections
  | .geometry g => if o.json then jsonLines (geometryJson g) else geometryLines g

/-- What the program answers with. -/
structure Reply where
  exit : UInt32
  /-- Lines for the standard output. -/
  out : List String := []
  /-- Lines for the standard error output. -/
  err : List String := []
deriving DecidableEq, Repr

/-- The name and version of the program. -/
def versionLine : String := "wbsim 0.3.0"

/-- How the program is called. -/
def usageLines : List String :=
  ["Usage: wbsim run [-c FILE] [-w WORKLOAD] [-n COUNT] [-s SEED] [--json] [--sections NAMES]",
    "       wbsim geometry [-c FILE] [--json]"]

/-- The answer to arguments that ask for nothing to execute. -/
def Stop.reply : Stop → Reply
  | .usage => { exit := 2, err := usageLines }
  | .help => { exit := 0, out := usageLines }
  | .version => { exit := 0, out := [versionLine] }

/-- The answer of a command that was executed. -/
def Command.reply (c : Command) (host : Option Nat) : Except Failure Outcome → Reply
  | .error e => { exit := 1, err := ["[!] " ++ e.message] }
  | .ok outcome => { exit := 0, out := outcome.lines c.options host }

/-- The answer to the arguments of the program, given the contents of files by path. -/
def reply (files : String → Option ByteArray) (args : List String) : Reply :=
  match parse args with
  | .error stop => stop.reply
  | .ok command => command.reply none (command.execute (command.options.config.bind files))

end WriteBack.CommandLine
