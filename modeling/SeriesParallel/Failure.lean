import SeriesParallel.Network.Structure
import SeriesParallel.Supply

/-!
# Failure — why a circuit is not solved

A failure is a cause with the data it is about; its wording is one function of
the cause.
-/

namespace SeriesParallel

/-- What is wrong with a description. -/
inductive Malformation where
  /-- Fewer than three segments. -/
  | missingSegment
  /-- The source names neither a voltage nor a current. -/
  | unknownSource (text : String)
  /-- The magnitude of the source is not a number. -/
  | invalidSource (text : String)
  /-- The magnitude of the source is infinite or undefined. -/
  | unboundedSource (text : String)
  /-- A resistance is not a number. -/
  | invalidResistance (text : String)
  /-- A resistance is negative, infinite or undefined. -/
  | refusedResistance (text : String)
  /-- A chain has no element. -/
  | missingElement
  /-- A dot stands at the start of a chain. -/
  | leadingDot
  /-- A dot is not followed by an element. -/
  | danglingDot
  /-- A chain is followed by something other than a separator. -/
  | missingSeparator (text : String)
  /-- Something follows the end of the topology. -/
  | trailing (text : String)
  deriving Repr, DecidableEq

/-- The wording of a malformation. -/
def Malformation.message : Malformation → String
  | missingSegment => "expected 'Name:Source:Topology'"
  | unknownSource t => "source '" ++ t ++ "' must be 'V.<value>' or 'I.<value>'"
  | invalidSource t => "invalid source value '" ++ t ++ "'"
  | unboundedSource t => "source value '" ++ t ++ "' is not a finite number"
  | invalidResistance t => "invalid resistance '" ++ t ++ "'"
  | refusedResistance t => "resistance '" ++ t ++ "' must be a non-negative number"
  | missingElement => "expected a resistor value"
  | leadingDot => "'.' must follow a resistor or group"
  | danglingDot => "expected a resistor or group after '.'"
  | missingSeparator t => "expected ',' or ';', got '" ++ t ++ "'"
  | trailing t => "unexpected '" ++ t ++ "' after the circuit was closed"

/-- Why a network or its supply has no finite solution. A group is given by
the chain that starts there. -/
inductive Degeneracy (R : Type) where
  /-- A resistance is negative, infinite or undefined. -/
  | badResistance (resistance : R)
  /-- A group has fewer than two branches. -/
  | fewBranches (place : Chain R)
  /-- A branch of a group has no resistance; branches count from one. -/
  | shortBranch (branch : Nat) (place : Chain R)
  /-- The resistance of a branch of a group is infinite or undefined. -/
  | unboundedBranch (branch : Nat) (place : Chain R)
  /-- The resistance of the whole network is infinite or undefined. -/
  | unboundedTotal (resistance : R)
  /-- A voltage source is connected to no resistance. -/
  | voltageAcrossShort (voltage : R)
  /-- A quantity of the whole circuit is infinite or undefined. -/
  | overflow (supply : Supply R) (totals : Totals R)

/-- The wording of a degeneracy. -/
def Degeneracy.message {R : Type} (number : R → String) : Degeneracy R → String
  | badResistance r => "resistance " ++ number r ++ " is not a finite non-negative value"
  | fewBranches c => "parallel group " ++ c.structure number ++ " has fewer than two branches"
  | shortBranch i c =>
      "branch " ++ toString i ++ " of parallel group " ++ c.structure number
        ++ " is a short circuit"
  | unboundedBranch i c =>
      "branch " ++ toString i ++ " of parallel group " ++ c.structure number
        ++ " has a non-finite resistance"
  | unboundedTotal r => "total resistance " ++ number r ++ " Ohms is not finite"
  | voltageAcrossShort v =>
      "a " ++ number v ++ " V source across a zero-resistance network draws infinite current"
  | overflow s t =>
      "supply '" ++ s.text number ++ "' across " ++ number t.resistance
        ++ " Ohms overflows (V = " ++ number t.voltage ++ ", I = " ++ number t.current
        ++ ", P = " ++ number t.power ++ ")"

/-- Why a circuit is not solved. -/
inductive Failure (R : Type) where
  /-- The description is malformed at a byte position. -/
  | malformed (position : Nat) (cause : Malformation)
  /-- The supply gives neither a positive voltage nor a positive current. -/
  | insufficient (supply : Supply R)
  /-- The network or its supply has no finite solution. -/
  | degenerate (cause : Degeneracy R)

/-- The wording of a failure. -/
def Failure.message {R : Type} (number : R → String) : Failure R → String
  | malformed p cause =>
      "Malformed circuit notation at position " ++ toString p ++ ": " ++ cause.message
  | insufficient s =>
      "Insufficient circuit specification: supply '" ++ s.text number
        ++ "' must be a positive voltage or current"
  | degenerate cause => "Degenerate network: " ++ cause.message number

/-- What does not fail has a result. -/
theorem exists_eq_ok_of_isOk {ε α : Type} {result : Except ε α} (h : result.isOk) :
    ∃ a, result = .ok a := by
  cases result with
  | error e => exact absurd h Bool.false_ne_true
  | ok a => exact ⟨a, rfl⟩

end SeriesParallel
