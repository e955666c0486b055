import SeriesParallel.Proofs.CommandLine.Lines

/-!
# Command line — two routes to one outcome

Circuits come from the arguments or, where these name none, from standard
input. Both routes hand over the same circuits, and what a run leaves behind is
put together from what each circuit leaves behind on its own: a refused one
neither stops those behind it nor is forgotten because of them.
-/

namespace SeriesParallel.CommandLine

/-! ## One circuit after another -/

theorem Outcome.empty_andThen (o : Outcome) : Outcome.andThen {} o = o := by
  rw [Outcome.andThen, String.empty_append, String.empty_append, Nat.zero_max]

theorem Outcome.andThen_assoc (a b c : Outcome) :
    (a.andThen b).andThen c = a.andThen (b.andThen c) := by
  simp only [Outcome.andThen, Nat.max_assoc, String.append_assoc]

theorem foldl_andThen (options : ReportOptions) (circuits : List String) (o : Outcome) :
    circuits.foldl (fun o c => o.andThen (solveOne options c)) o
      = o.andThen (solveAll options circuits) := by
  induction circuits generalizing o with
  | nil => simp [solveAll, Outcome.andThen]
  | cons c circuits ih =>
    rw [solveAll, List.foldl_cons, List.foldl_cons, ih, ih, Outcome.empty_andThen,
      Outcome.andThen_assoc]

/-- **The first circuit does not change how the others are solved.** -/
theorem solveAll_cons (options : ReportOptions) (circuit : String) (circuits : List String) :
    solveAll options (circuit :: circuits)
      = (solveOne options circuit).andThen (solveAll options circuits) := by
  rw [solveAll, List.foldl_cons, foldl_andThen, Outcome.empty_andThen]

/-! ## What a run leaves behind -/

/-- What a circuit that is accepted adds to the output: its report on lines. -/
def report? (options : ReportOptions) (circuit : String) : Option String :=
  match Circuit.parse circuit with
  | .ok c => some (c.report options ++ "\n")
  | .error _ => none

/-- What a circuit that is refused adds to the errors: its failure on a line. -/
def complaint? (circuit : String) : Option String :=
  match Circuit.parse circuit with
  | .ok _ => none
  | .error e => some ("Error in '" ++ circuit ++ "': " ++ e.message Decimal.plain ++ "\n")

/-- An outcome that is put together from what each circuit leaves behind. -/
structure SolvesEach (options : ReportOptions) (circuits : List String) (o : Outcome) : Prop where
  output_eq : o.output = String.join (circuits.filterMap (report? options))
  errors_eq : o.errors = String.join (circuits.filterMap complaint?)
  code_le_one : o.code ≤ 1
  code_eq_one_iff : o.code = 1 ↔ ∃ c ∈ circuits, ∃ e, Circuit.parse c = .error e

theorem SolvesEach.nil (options : ReportOptions) : SolvesEach options [] {} where
  output_eq := rfl
  errors_eq := rfl
  code_le_one := Nat.zero_le 1
  code_eq_one_iff := by simp

theorem SolvesEach.one (options : ReportOptions) (circuit : String) :
    SolvesEach options [circuit] (solveOne options circuit) := by
  cases parsed : Circuit.parse circuit with
  | ok c =>
    have reported : report? options circuit = some (c.report options ++ "\n") := by
      rw [report?, parsed]
    have quiet : complaint? circuit = none := by rw [complaint?, parsed]
    rw [solveOne, parsed]
    constructor <;> simp [reported, quiet, parsed]
  | error e =>
    have unreported : report? options circuit = none := by rw [report?, parsed]
    have complained : complaint? circuit
        = some ("Error in '" ++ circuit ++ "': " ++ e.message Decimal.plain ++ "\n") := by
      rw [complaint?, parsed]
    rw [solveOne, parsed]
    constructor <;> simp [unreported, complained, parsed]

/-- **A failure is not forgotten**, whether it comes first or last. -/
theorem SolvesEach.andThen {options : ReportOptions} {circuits later : List String}
    {o o' : Outcome} (h : SolvesEach options circuits o) (h' : SolvesEach options later o') :
    SolvesEach options (circuits ++ later) (o.andThen o') where
  output_eq := by
    rw [List.filterMap_append, String.join_append, ← h.output_eq, ← h'.output_eq]
    rfl
  errors_eq := by
    rw [List.filterMap_append, String.join_append, ← h.errors_eq, ← h'.errors_eq]
    rfl
  code_le_one := Nat.max_le.mpr ⟨h.code_le_one, h'.code_le_one⟩
  code_eq_one_iff := by
    have fails : max o.code o'.code = 1 ↔ o.code = 1 ∨ o'.code = 1 := by
      have := h.code_le_one
      have := h'.code_le_one
      omega
    simp only [List.mem_append, or_and_right, exists_or, ← h.code_eq_one_iff,
      ← h'.code_eq_one_iff]
    exact fails

theorem solvesEach_solveAll (options : ReportOptions) (circuits : List String) :
    SolvesEach options circuits (solveAll options circuits) := by
  induction circuits with
  | nil => exact .nil options
  | cons c circuits ih =>
    rw [solveAll_cons]
    exact (SolvesEach.one options c).andThen ih

/-! ## Both routes -/

theorem run_of_ne_nil {circuits : List String} (h : circuits ≠ []) (options : Options)
    (input : ByteArray) : run options circuits input = solveAll options.report circuits := by
  cases circuits with
  | nil => exact absurd rfl h
  | cons c circuits => rfl

theorem run_of_circuitsOf? {input : ByteArray} {circuits : List String}
    (h : circuitsOf? input = some circuits) (options : Options) :
    run options [] input = solveAll options.report circuits := by
  rw [run, List.isEmpty_nil, if_pos rfl, h]

/-- **Both routes have one outcome.** Whatever the options are, circuits are handed
over with them or are listed on the lines of standard input: the outcome is the
same, and it is put together from what each circuit leaves behind on its own, with
the decimals and the parts of a report that the options ask for. -/
theorem routes_agree {circuits : List String} {text : String} (some_given : circuits ≠ [])
    (notations : ∀ c ∈ circuits, IsNotation c) (listed : Lists text.toList circuits)
    (options : Options) (input : ByteArray) :
    run options circuits input = run options [] text.toUTF8 ∧
      SolvesEach
        { places := options.places
          schematic := !options.noSchematic
          table := !options.schematicOnly }
        circuits (run options circuits input) := by
  have given : run options circuits input = solveAll options.report circuits :=
    run_of_ne_nil some_given options input
  have read : run options [] text.toUTF8 = solveAll options.report circuits :=
    run_of_circuitsOf? (circuitsOf?_toUTF8 listed notations) options
  refine ⟨given.trans read.symm, ?_⟩
  rw [given]
  exact solvesEach_solveAll options.report circuits

/-- Lines of both kinds and blank ones, and no end on the last line. The first
circuit is reported on without its schematic; the run fails for the second one,
which has no topology. -/
theorem routes_agree_mixedLines :
    let options : Options := { places := 3, noSchematic := true }
    let o := run options ["A:V.12:1", "B:12"] ByteArray.empty
    o = run options [] "\n \r\nA:V.12:1\r\n\nB:12".toUTF8 ∧ o.code = 1 ∧
      ∃ c, Circuit.parse "A:V.12:1" = .ok c ∧
        o.output = c.report { places := 3, schematic := false } ++ "\n" := by
  have notations : ∀ c ∈ ["A:V.12:1", "B:12"], IsNotation c :=
    List.forall_mem_cons.mpr ⟨⟨⟨'A', by decide, rfl⟩, by decide, by decide⟩,
      List.forall_mem_singleton.mpr ⟨⟨'B', by decide, rfl⟩, by decide, by decide⟩⟩
  have listed : Lists "\n \r\nA:V.12:1\r\n\nB:12".toList ["A:V.12:1", "B:12"] :=
    have empty : IsBlankLine [] := ⟨List.forall_mem_nil _, by decide⟩
    have space : IsBlankLine [' '] := ⟨List.forall_mem_singleton.mpr rfl, by decide⟩
    .blank empty .feed (.blank space .returnAndFeed (.circuit "A:V.12:1" .returnAndFeed
      (.blank empty .feed (.last "B:12"))))
  obtain ⟨same, solved⟩ := routes_agree (List.cons_ne_nil _ _) notations listed
    { places := 3, noSchematic := true } ByteArray.empty
  have built : (Circuit.parse "A:V.12:1").isOk := by decide +kernel
  obtain ⟨c, accepted⟩ := exists_eq_ok_of_isOk built
  have refused : ∃ e, Circuit.parse "B:12" = .error e := ⟨_, rfl⟩
  refine ⟨same, solved.code_eq_one_iff.mpr ⟨"B:12", by decide, refused⟩, c, accepted, ?_⟩
  obtain ⟨e, refused⟩ := refused
  rw [solved.output_eq]
  simp [report?, accepted, refused]

end SeriesParallel.CommandLine
