import WriteBack.Workload

/-!
# WriteBack.CommandLine

The arguments of the program: a subcommand and its options.

An option has a long name and may have a short one. Its value follows as the next argument, or directly:
after `=` for a long name, and after the letter, with or without `=`, for a short one. An argument that starts
with a dash, other than the dash alone, is never the value of the option before it. Arguments count from left
to right, and the first fault or request for help ends the reading.
-/

namespace WriteBack.CommandLine

/-- An option of the program. -/
inductive Key where
  | config
  | workload
  | transactions
  | seed
  | json
  | sections
deriving DecidableEq, Repr

namespace Key

/-- The name after two dashes. -/
def long : Key → String
  | .config => "config"
  | .workload => "workload"
  | .transactions => "transactions"
  | .seed => "seed"
  | .json => "json"
  | .sections => "sections"

/-- The letter after one dash. -/
def short? : Key → Option Char
  | .config => some 'c'
  | .workload => some 'w'
  | .transactions => some 'n'
  | .seed => some 's'
  | .json | .sections => none

/-- The option stands alone, without a value. -/
def isFlag (k : Key) : Bool := k == .json

/-- The option may stand more than once, and its values add up. -/
def isRepeatable (k : Key) : Bool := k == .sections

end Key

/-- Why there is nothing to execute. -/
inductive Stop where
  /-- The arguments are not understood. -/
  | usage
  | help
  | version
deriving DecidableEq, Repr

/-- The options that were given, or their defaults. -/
structure Options where
  /-- The options given so far. -/
  given : List Key := []
  /-- The path of the configuration file. -/
  config : Option String := none
  workload : Workload := .sequential
  transactions : Nat := 1000
  seed : UInt64 := 1
  json : Bool := false
  /-- The sections of the report; all of them if there is none. -/
  sections : List String := []
deriving DecidableEq, Repr

/-- What the program is asked for. -/
inductive Command where
  /-- Runs traffic and reports the counters. -/
  | run (options : Options)
  /-- Reports the geometry of a configuration. -/
  | geometry (options : Options)
deriving DecidableEq, Repr

/-! ## Values -/

/-- A natural number of at most 64 bits in decimal digits, with an optional plus sign. -/
def natural? (text : String) : Option Nat :=
  let digits := match text.toList with
    | '+' :: rest => rest
    | all => all
  if digits.isEmpty || !digits.all Char.isDigit then none
  else
    let n := digits.foldl (fun n d => 10 * n + (d.toNat - '0'.toNat)) 0
    if n < 2 ^ 64 then some n else none

/-- Takes the value of an option; a flag comes with an empty one. -/
def Options.set (o : Options) (k : Key) (value : String) : Except Stop Options :=
  if !k.isRepeatable && o.given.contains k then .error .usage
  else
    let o := { o with given := k :: o.given }
    match k with
    | .config => if value.isEmpty then .error .usage else .ok { o with config := some value }
    | .workload =>
      match Workload.ofName value with
      | .error _ => .error .usage
      | .ok w => .ok { o with workload := w }
    | .transactions =>
      match natural? value with
      | none => .error .usage
      | some n => .ok { o with transactions := n }
    | .seed =>
      match natural? value with
      | none => .error .usage
      | some n => .ok { o with seed := UInt64.ofNat n }
    | .json => .ok { o with json := true }
    | .sections => .ok { o with sections := o.sections ++ value.splitOn "," }

/-! ## Arguments -/

/-- What an argument is. -/
inductive Token where
  /-- The two dashes after which no option follows. -/
  | escape
  | help
  /-- An option with its value, or a flag. -/
  | setting (k : Key) (value : String)
  /-- An option whose value is the next argument. -/
  | awaiting (k : Key)
  /-- No option of the subcommand. -/
  | unknown
deriving DecidableEq, Repr

/-- An argument after its two dashes. -/
def longToken (keys : List Key) (body : List Char) : Token :=
  let name := String.ofList (body.takeWhile (· != '='))
  let value? := (body.dropWhile (· != '=')).tail?
  if name == "help" then if value?.isNone then .help else .unknown
  else match keys.find? (·.long == name), value? with
    | none, _ => .unknown
    | some k, none => if k.isFlag then .setting k "" else .awaiting k
    | some k, some value => if k.isFlag then .unknown else .setting k (String.ofList value)

/-- An argument after its one dash. -/
def shortToken (keys : List Key) (letter : Char) (body : List Char) : Token :=
  if letter == 'h' then .help
  else match keys.find? (·.short? == some letter), body with
    | none, _ => .unknown
    | some k, [] => .awaiting k
    | some k, '=' :: value => .setting k (String.ofList value)
    | some k, value => .setting k (String.ofList value)

/-- What an argument is, given the options of the subcommand. -/
def token (keys : List Key) (arg : String) : Token :=
  match arg.toList with
  | ['-', '-'] => .escape
  | '-' :: '-' :: body => longToken keys body
  | '-' :: letter :: body => shortToken keys letter body
  | _ => .unknown

/-- The argument can be the value of the option before it. -/
def isValue (arg : String) : Bool :=
  match arg.toList with
  | '-' :: _ :: _ => false
  | _ => true

/-- Reads the options of a subcommand. -/
def readOptions (keys : List Key) (o : Options) : List String → Except Stop Options
  | [] => .ok o
  | arg :: rest =>
    match token keys arg, rest with
    | .escape, [] => .ok o
    | .escape, _ :: _ => .error .usage
    | .help, _ => .error .help
    | .unknown, _ => .error .usage
    | .setting k value, rest => do readOptions keys (← o.set k value) rest
    | .awaiting _, [] => .error .usage
    | .awaiting k, value :: rest =>
      if isValue value then do readOptions keys (← o.set k value) rest else .error .usage

/-- The options of `run`. -/
def runKeys : List Key := [.config, .workload, .transactions, .seed, .json, .sections]

/-- The options of `geometry`. -/
def geometryKeys : List Key := [.config, .json]

/-- The subcommands by name, `help` among them. -/
def subcommands : List String := ["run", "geometry", "help"]

/-- Reads the arguments of the program. -/
def parse (args : List String) : Except Stop Command :=
  match args with
  | [] => .error .usage
  | "run" :: rest => .run <$> readOptions runKeys {} rest
  | "geometry" :: rest => .geometry <$> readOptions geometryKeys {} rest
  | ["help"] => .error .help
  | ["help", name] => .error (if subcommands.contains name then .help else .usage)
  | arg :: _ =>
    match arg.toList with
    | '-' :: 'V' :: _ => .error .version
    | '-' :: 'h' :: _ => .error .help
    | _ => .error (if arg == "--help" then .help else if arg == "--version" then .version else .usage)

end WriteBack.CommandLine
