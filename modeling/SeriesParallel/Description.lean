import SeriesParallel.Topology.Draft

/-!
# Description — a circuit on one line

A circuit is described on one line as `Name:Source:Topology`. The name and the
source hold no colon; the topology is everything after the second one. A
source is `V.` or `I.` and a magnitude. Line ends at the end of the line do not
belong to it.
-/

namespace SeriesParallel

/-- A described circuit, its topology as it was written. -/
structure Description (R : Type) where
  name : String
  supply : Supply R
  topology : Chain R

/-- The source that a text stands for, which starts at a given position. The
sign of its magnitude is looked at only when the circuit is solved. -/
def Supply.parse (text : String) (position : Nat) : Except (Failure Float) (Supply Float) :=
  let magnitude (kind : Float → Supply Float) (cs : List Char) :
      Except (Failure Float) (Supply Float) :=
    let m := String.ofList cs
    match readValue? m with
    | none => .error (.malformed (position + 2) (.invalidSource m))
    | some x =>
      if x.isFinite then .ok (kind x)
      else .error (.malformed (position + 2) (.unboundedSource m))
  match text.toList with
  | 'V' :: '.' :: cs => magnitude .voltage cs
  | 'I' :: '.' :: cs => magnitude .current cs
  | _ => .error (.malformed position (.unknownSource text))

/-- The text before the first colon and the text after it. -/
def splitColon? (cs : List Char) : Option (List Char × List Char) :=
  match cs.dropWhile (· != ':') with
  | [] => none
  | _ :: rest => some (cs.takeWhile (· != ':'), rest)

/-- Whether a character is part of a line end. -/
def isLineEnd (c : Char) : Bool := c = '\r' || c = '\n'

/-- The circuit that a line describes. A fault in the source is reported before
any fault in the topology. -/
def Description.parse (input : String) : Except (Failure Float) (Description Float) :=
  let line := Text.dropEnd isLineEnd input.toList
  let segments? := do
    let (name, rest) ← splitColon? line
    let (source, topology) ← splitColon? rest
    some (name, source, topology)
  match segments? with
  | none => .error (.malformed (byteLength line) .missingSegment)
  | some (name, source, topology) => do
    let sourceStart := byteLength name + 1
    let supply ← Supply.parse (String.ofList source) sourceStart
    let topologyStart := sourceStart + byteLength source + 1
    let root ← parseTopology (String.ofList topology) topologyStart
    .ok ⟨String.ofList name, supply, root⟩

end SeriesParallel
