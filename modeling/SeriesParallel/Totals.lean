import SeriesParallel.Failure

/-!
# Totals — the supply meets the network

The supply fixes one of voltage and current, and Ohm's law gives the other.
-/

namespace SeriesParallel

variable {R : Type} [Quantity R]

/-- The totals at a given voltage and current, all of which must be numbers. -/
def Supply.totals (supply : Supply R) (resistance voltage current : R) :
    Except (Failure R) (Totals R) :=
  let totals : Totals R := ⟨resistance, voltage, current, voltage * current⟩
  if Quantity.isFinite totals.voltage && Quantity.isFinite totals.current
      && Quantity.isFinite totals.power then .ok totals
  else .error (.degenerate (.overflow supply totals))

/-- The quantities of a circuit as a whole. A supply must be positive, and a
voltage source needs a resistance to drive a current through. -/
def Supply.resolve (supply : Supply R) (resistance : R) : Except (Failure R) (Totals R) :=
  if !Quantity.isFinite resistance then .error (.degenerate (.unboundedTotal resistance))
  else match supply with
    | .voltage v =>
      if !(0 < v) then .error (.insufficient supply)
      else if !(0 < resistance) then .error (.degenerate (.voltageAcrossShort v))
      else supply.totals resistance v (v / resistance)
    | .current i =>
      if !(0 < i) then .error (.insufficient supply)
      else supply.totals resistance (i * resistance) i

end SeriesParallel
