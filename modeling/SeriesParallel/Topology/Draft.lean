import SeriesParallel.Failure
import SeriesParallel.Topology.Token
import SeriesParallel.Topology.Value

/-!
# Topology — the network of a token list

A topology is a group: chains separated by `,` and closed by `;` or by the end
of the text, which closes every group that is still open. A chain is values
and `:`-opened groups, with an optional `.` between two of them. The whole text
is one implicit group.

Tokens are taken in one by one into a **draft**, the stack of the groups that
are open. The first token that cannot continue the draft is refused.
-/

namespace SeriesParallel

/-- A group that is still open: its finished branches and the elements of the
branch being read, both latest first. -/
structure OpenGroup where
  branches : List (Chain Float)
  series : List (Element Float)

/-- An open group with nothing in it. -/
def OpenGroup.empty : OpenGroup := ⟨[], []⟩

/-- The group with one more element on the branch being read. -/
def OpenGroup.add (g : OpenGroup) (e : Element Float) : OpenGroup :=
  { g with series := e :: g.series }

/-- Ends the branch being read, which must have an element. -/
def OpenGroup.endSeries (g : OpenGroup) (position : Nat) : Except (Failure Float) OpenGroup :=
  match Chain.ofElements? g.series.reverse with
  | none => .error (.malformed position .missingElement)
  | some c => .ok ⟨c :: g.branches, []⟩

/-- The element that a group with finished branches is. -/
def OpenGroup.close (g : OpenGroup) : Element Float := .parallel g.branches.reverse

/-- The groups that are open, innermost first, and whether a dot has just been
read. -/
structure Draft where
  current : OpenGroup
  enclosing : List OpenGroup
  dotted : Bool

/-- What has been read after a token: a draft, or the whole network. -/
inductive Progress where
  | reading (draft : Draft)
  | closed (root : Element Float)

/-- The resistor that a value stands for. -/
def readResistor (text : String) (position : Nat) : Except (Failure Float) (Element Float) :=
  match readValue? text with
  | none => .error (.malformed position (.invalidResistance text))
  | some r =>
    if !r.isFinite || r < 0 then .error (.malformed position (.refusedResistance text))
    else .ok (.ofResistance r)

namespace Draft

/-- The draft before the first token: the implicit group is open. -/
def start : Draft := ⟨.empty, [], false⟩

/-- The draft with one more element on the branch being read. -/
def add (d : Draft) (e : Element Float) : Draft := ⟨d.current.add e, d.enclosing, false⟩

/-- The draft with a further group opened. -/
def enter (d : Draft) : Draft := ⟨.empty, d.current :: d.enclosing, false⟩

/-- The innermost group closed: it is an element of the group around it, or
the whole network. -/
def leave (root : Element Float) : List OpenGroup → Progress
  | [] => .closed root
  | g :: gs => .reading ⟨g.add root, gs, false⟩

/-- Takes in a token after a chain, which it ends. -/
def separate (d : Draft) (t : Token) : Except (Failure Float) Progress := do
  let g ← d.current.endSeries t.position
  match t.symbol with
  | .comma => .ok (.reading ⟨g, d.enclosing, false⟩)
  | .semicolon => .ok (leave g.close d.enclosing)
  | s => .error (.malformed t.position (.missingSeparator s.text))

/-- Takes in one token. -/
def step (d : Draft) (t : Token) : Except (Failure Float) Progress :=
  match t.symbol with
  | .value text => (readResistor text t.position).map fun e => .reading (d.add e)
  | .colon => .ok (.reading d.enter)
  | s =>
    if d.dotted then .error (.malformed t.position .danglingDot)
    else if s = .dot then
      if d.current.series.isEmpty then .error (.malformed t.position .leadingDot)
      else .ok (.reading { d with dotted := true })
    else d.separate t

/-- Closes the given groups, innermost first, around an element. -/
def closeAll (position : Nat) (e : Element Float) :
    List OpenGroup → Except (Failure Float) (Element Float)
  | [] => .ok e
  | g :: gs => do
    let g ← (g.add e).endSeries position
    closeAll position g.close gs

/-- Takes in the end of the text, which closes every open group. -/
def finish (d : Draft) (position : Nat) : Except (Failure Float) (Element Float) :=
  if d.dotted then .error (.malformed position .danglingDot)
  else do
    let g ← d.current.endSeries position
    closeAll position g.close d.enclosing

end Draft

/-! ## Reading a topology -/

/-- Tokens still to be read, and the position of the end of the text. -/
structure TokenStream where
  tokens : List Token
  finish : Nat
  deriving Repr, DecidableEq

/-- Whether a malformation is about a value, which has then been read. -/
def Malformation.isAboutValue : Malformation → Bool
  | invalidResistance _ => true
  | refusedResistance _ => true
  | _ => false

/-- Whether the token that caused a failure counts as read. -/
def Failure.consumesToken : Failure Float → Bool
  | malformed _ cause => cause.isAboutValue
  | _ => false

namespace TokenStream

/-- The tokens of a text that starts at a given position. -/
def ofString (text : String) (position : Nat) : TokenStream :=
  let l := Lexer.ofString text position
  ⟨l.tokens, l.finish⟩

/-- Takes in tokens until the implicit group is closed, and answers with it
and the tokens not read. -/
def run (finish : Nat) (d : Draft) :
    List Token → Except (Failure Float) (Element Float) × List Token
  | [] => (d.finish finish, [])
  | t :: ts =>
    match d.step t with
    | .error e => (.error e, if e.consumesToken then ts else t :: ts)
    | .ok (.reading d') => run finish d' ts
    | .ok (.closed root) => (.ok root, ts)

/-- Reads one topology, after which the text must end, and answers with it and
the tokens not read. Reading may go on from there, also after a failure. -/
def parse (s : TokenStream) : Except (Failure Float) (Chain Float) × TokenStream :=
  match run s.finish .start s.tokens with
  | (.error e, ts) => (.error e, { s with tokens := ts })
  | (.ok root, []) => (.ok (.last root), { s with tokens := [] })
  | (.ok _, t :: ts) =>
    (.error (.malformed t.position (.trailing t.symbol.text)), { s with tokens := t :: ts })

end TokenStream

/-- The network of a topology text that starts at a given position. -/
def parseTopology (text : String) (position : Nat) : Except (Failure Float) (Chain Float) :=
  (TokenStream.ofString text position).parse.1

end SeriesParallel
