import SeriesParallel.Decimal.Fixed
import SeriesParallel.Schematic

/-!
# Report — a circuit as text

A report shows the name of a circuit, its drawing, a table of its components
and its totals. Quantities are written with a limited number of decimals.
-/

namespace SeriesParallel

/-! ## Amounts -/

/-- Drops the zeros at the end of the decimals, and the point when no decimal
is left. A text without a point stays as it is. -/
def trimDecimals (cs : List Char) : List Char :=
  if cs.contains '.' then Text.dropEnd (· = '.') (Text.dropEnd (· = '0') cs) else cs

/-- A quantity with at most `places` decimals, such as `0.03` or `450`. Zero
has no sign. -/
def amount (x : Float) (places : Nat) : String :=
  let cs := trimDecimals (Decimal.fixed x places)
  if cs = ['-', '0'] then "0" else String.ofList cs

/-! ## Reports -/

/-- The number of decimals at most, where none is asked for. -/
def defaultPlaces : Nat := 2

/-- What a report shows: the number of decimals at most, and its parts. -/
structure ReportOptions where
  places : Nat := defaultPlaces
  schematic : Bool := true
  table : Bool := true
  deriving Repr, DecidableEq

/-- One line about a component. -/
def Element.row (e : Element Float) (places : Nat) : String :=
  let v := e.reading
  match e with
  | .resistor l _ r =>
    "Resistor " ++ l ++ ": Resistance: " ++ amount r places ++ " Ohms. Voltage: "
      ++ amount v.voltage places ++ " V. Intensity: " ++ amount v.current places
      ++ " A. Power: " ++ amount v.power places ++ " W."
  | .group l _ bs =>
    "Branch " ++ l ++ ": Branches: \x7b" ++ ", ".intercalate (bs.map (·.head.label))
      ++ "\x7d. Total Resistance: " ++ amount e.resistance places ++ " Ohms. Total Voltage: "
      ++ amount v.voltage places ++ " V. Total Intensity: " ++ amount v.current places
      ++ " A. Total Power: " ++ amount v.power places ++ " W."

namespace Circuit

/-- One line for each component, in canonical order. -/
def table (c : Circuit Float) (places : Nat) : String :=
  String.join ("####Data Table####\n" :: c.components.map fun e => e.row places ++ "\n")

/-- The quantities of the circuit as a whole. -/
def totalsBlock (c : Circuit Float) (places : Nat) : String :=
  "Total circuit data:\nTotal Resistance: " ++ amount c.totals.resistance places
    ++ " Ohms\nTotal Voltage: " ++ amount c.totals.voltage places
    ++ " V\nTotal Intensity: " ++ amount c.totals.current places
    ++ " A\nTotal Power: " ++ amount c.totals.power places ++ " W\n"

/-- The drawing of the circuit below its number of columns. -/
def drawing (c : Circuit Float) : String :=
  let grid := c.schematic
  "Columns: " ++ toString grid.columns ++ "\nDrawing:\n\n" ++ grid.render ++ "\n"

/-- The report of a circuit. -/
def report (c : Circuit Float) (options : ReportOptions) : String :=
  "Name: " ++ c.name ++ "\n\n" ++ (if options.schematic then c.drawing else "")
    ++ (if options.table then c.table options.places ++ "\n" ++ c.totalsBlock options.places
      else "")

end Circuit

end SeriesParallel
