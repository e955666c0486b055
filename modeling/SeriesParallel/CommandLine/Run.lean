import SeriesParallel.Report

/-!
# Command line — a run with its options

A run has options and circuits. Where no circuit is given, every line of
standard input that is not blank is one. Each circuit is solved on its own:
its report goes to the output, or its failure to the errors.
-/

namespace SeriesParallel.CommandLine

/-! ## Options -/

/-- The options of a run: the number of decimals at most, and whether the schematic
is all that is shown or is left out. -/
structure Options where
  places : Nat := defaultPlaces
  schematicOnly : Bool := false
  noSchematic : Bool := false
  deriving Repr, DecidableEq

/-- What every report of a run shows. -/
def Options.report (o : Options) : ReportOptions :=
  { places := o.places, schematic := !o.noSchematic, table := !o.schematicOnly }

/-! ## Standard input -/

/-- The pieces of a text between line feeds. -/
def pieces : List Char → List (List Char)
  | [] => [[]]
  | c :: cs =>
    if c = '\n' then [] :: pieces cs
    else match pieces cs with
      | [] => [[c]]
      | p :: ps => (c :: p) :: ps

/-- A line without the carriage return that belongs to its end. -/
def dropReturn (cs : List Char) : List Char :=
  if cs.getLast? = some '\r' then cs.dropLast else cs

/-- The lines of a text. A line ends at a line feed, with or without a carriage
return before it; the last line may lack an end. -/
def linesOf (cs : List Char) : List (List Char) :=
  let ps := pieces cs
  ps.dropLast.map dropReturn ++ (ps.getLast?.toList.filter (!·.isEmpty))

/-- The circuits of standard input: its lines that are not blank. There are
none to be had when the input is not UTF-8. -/
def circuitsOf? (input : ByteArray) : Option (List String) :=
  (String.fromUTF8? input).map fun text =>
    ((linesOf text.toList).filter fun l => !(Text.trim l).isEmpty).map String.ofList

/-! ## Runs -/

/-- What a run leaves behind. -/
structure Outcome where
  code : Nat := 0
  output : String := ""
  errors : String := ""
  deriving Repr, DecidableEq

/-- One run after another. It fails if either does. -/
def Outcome.andThen (a b : Outcome) : Outcome :=
  ⟨max a.code b.code, a.output ++ b.output, a.errors ++ b.errors⟩

/-- Solves one circuit. -/
def solveOne (options : ReportOptions) (circuit : String) : Outcome :=
  match Circuit.parse circuit with
  | .ok c => { output := c.report options ++ "\n" }
  | .error e =>
    { code := 1, errors := "Error in '" ++ circuit ++ "': " ++ e.message Decimal.plain ++ "\n" }

/-- Solves circuits one after another. -/
def solveAll (options : ReportOptions) (circuits : List String) : Outcome :=
  circuits.foldl (fun o c => o.andThen (solveOne options c)) {}

/-- A run with its options and circuits, given the bytes of standard input. They
are read where there are no circuits, and nothing is solved if they cannot be. -/
def run (options : Options) (circuits : List String) (input : ByteArray) : Outcome :=
  match if circuits.isEmpty then circuitsOf? input else some circuits with
  | some circuits => solveAll options.report circuits
  | none =>
    { code := 1
      errors := "Error: Failed to read circuit input: stream did not contain valid UTF-8\n" }

end SeriesParallel.CommandLine
