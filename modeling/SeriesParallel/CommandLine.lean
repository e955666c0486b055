import SeriesParallel.CommandLine.Run

/-!
# Command line — from arguments to a run

The arguments ask for the version, for help or for a run with its options and
circuits, or they are not understood.

Everything here is a function of the arguments and the bytes of the input.
-/

namespace SeriesParallel.CommandLine

/-! ## Arguments -/

/-- What the arguments ask for. -/
inductive Request where
  /-- The arguments are not understood. -/
  | misuse
  | version
  | help
  /-- A run with its options and circuits. -/
  | solve (options : Options) (circuits : List String)
  deriving Repr, DecidableEq

/-- One argument by its form. A value may be attached to an option. -/
inductive Form where
  | circuit
  /-- Every argument after this one is a circuit. -/
  | separator
  /-- The number of decimals, attached or in the next argument. -/
  | precision (attached : Option (List Char))
  | schematicOnly
  | noSchematic
  | version
  | help
  | unknown
  deriving Repr, DecidableEq

/-- The form of a long option, given its name and what follows the name. -/
def Form.ofLong (name : String) : (attached : List Char) → Form
  | [] =>
    match name with
    | "precision" => precision none
    | "schematic-only" => schematicOnly
    | "no-schematic" => noSchematic
    | "version" => version
    | "help" => help
    | _ => unknown
  | _ :: text => if name = "precision" then precision (some text) else unknown

/-- The form of a short option, given its letter and what follows the letter. -/
def Form.ofShort : Char → List Char → Form
  | 'p', [] => precision none
  | 'p', '=' :: text => precision (some text)
  | 'p', text => precision (some text)
  | 'V', _ => version
  | 'h', _ => help
  | _, _ => unknown

/-- The form of an argument. A dash on its own is a circuit. -/
def Form.of : List Char → Form
  | ['-', '-'] => separator
  | '-' :: '-' :: cs =>
    ofLong (String.ofList (cs.takeWhile (· != '='))) (cs.dropWhile (· != '='))
  | '-' :: c :: cs => ofShort c cs
  | _ => circuit

/-- The largest number of decimals that can be asked for. -/
def maxPlaces : Nat := UInt64.size - 1

/-- A number of decimals: digits, after a plus sign or not. -/
def readPlaces? (cs : List Char) : Option Nat :=
  let digits := match cs with
    | '+' :: ds => ds
    | ds => ds
  (Decimal.natural? digits).filter (· ≤ maxPlaces)

/-- The arguments read so far: the options given, the circuits with the latest
first, whether the next argument is a number of decimals, and whether only
circuits follow. -/
structure Arguments where
  places? : Option Nat := none
  schematicOnly : Bool := false
  noSchematic : Bool := false
  circuits : List String := []
  awaiting : Bool := false
  onlyCircuits : Bool := false
  deriving Repr, DecidableEq

namespace Arguments

/-- Adds a circuit. -/
def addCircuit (a : Arguments) (circuit : String) : Arguments :=
  { a with circuits := circuit :: a.circuits }

/-- Sets the number of decimals, which can be given only once. -/
def setPlaces (a : Arguments) (text : List Char) : Except Request Arguments :=
  match a.places?, readPlaces? text with
  | none, some n => .ok { a with places? := some n, awaiting := false }
  | _, _ => .error .misuse

/-- Reads one more argument. The first one that is not understood decides the
request, as does the first that asks for the version or for help. -/
def read (a : Arguments) (arg : String) : Except Request Arguments :=
  let form := Form.of arg.toList
  if a.onlyCircuits then .ok (a.addCircuit arg)
  else if a.awaiting then
    if form = .circuit then a.setPlaces arg.toList else .error .misuse
  else match form with
    | .circuit => .ok (a.addCircuit arg)
    | .separator => .ok { a with onlyCircuits := true }
    | .precision (some text) => a.setPlaces text
    | .precision none => .ok { a with awaiting := true }
    | .schematicOnly =>
      if a.schematicOnly then .error .misuse else .ok { a with schematicOnly := true }
    | .noSchematic =>
      if a.noSchematic then .error .misuse else .ok { a with noSchematic := true }
    | .version => .error .version
    | .help => .error .help
    | .unknown => .error .misuse

/-- The request that complete arguments make. -/
def request (a : Arguments) : Request :=
  if a.awaiting || a.schematicOnly && a.noSchematic then .misuse
  else
    let options : Options :=
      { places := a.places?.getD defaultPlaces
        schematicOnly := a.schematicOnly
        noSchematic := a.noSchematic }
    .solve options a.circuits.reverse

end Arguments

/-- The request that arguments make. -/
def Request.ofArguments (args : List String) : Request :=
  match args.foldlM Arguments.read {} with
  | .ok a => a.request
  | .error r => r

/-! ## What a request leaves behind -/

/-- The name and the version of the program. -/
def versionText : String := "ohmdraw_core 0.1.0\n"

/-- How the program is used. -/
def helpText : String := String.join ([
  "Series/parallel resistor network solver",
  "",
  "Usage: ohmdraw [OPTIONS] [CIRCUIT]...",
  "",
  "Arguments:",
  "  [CIRCUIT]...  Circuits in `Name:Source:Topology` notation; read one per line from stdin"
    ++ " if omitted",
  "",
  "Options:",
  "  -p, --precision <PRECISION>  Maximum number of decimals in the data table [default: 2]",
  "      --schematic-only         Print only the schematic",
  "      --no-schematic           Print only the data table and totals",
  "  -h, --help                   Print help",
  "  -V, --version                Print version"].map (· ++ "\n"))

/-- What the program writes when its arguments are not understood. -/
def misuseText : String := "error: invalid arguments\n\nFor more information, try '--help'.\n"

/-- Whether a request needs standard input. -/
def Request.readsInput : Request → Bool
  | solve _ [] => true
  | _ => false

/-- Carries out a request, given the bytes of standard input. -/
def Request.run (input : ByteArray) : Request → Outcome
  | misuse => { code := 2, errors := misuseText }
  | version => { output := versionText }
  | help => { output := helpText }
  | solve options circuits => CommandLine.run options circuits input

end SeriesParallel.CommandLine
