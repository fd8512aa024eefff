import ChipAsm.Proofs.Accounting
import ChipAsm.Proofs.History

/-!
# Keeping and expanding calls

A run may leave calls as they are, or put their numbers in their place.  Where the first run has no
errors the second has none, and it makes the same lines except that every operand is expanded
(`expanding_commutes`).

Whether calls are kept matters in two places only.  The text of an operand is expanded, or is not.  And
the target of a relative branch has to be an integer or a register, which a kept call is not.  So a call
that is kept at such a place is an error, and the operands there are the same in both runs.
-/

namespace ChipAsm

open ChipAsm.Text ChipAsm.Token ChipAsm.Number

/-! ## Operands -/

theorem paren_not_mem_of_isRegister {token : String} (h : isRegister token = true) :
    '(' ∉ token.toList := by
  intro hmem
  have hchars : '(' ∈ chomp token.toList := mem_chomp hmem (by decide)
  rw [isRegister] at h
  unfold isRegisterChars at h
  split at h
  · rename_i heq
    rw [heq] at hchars
    exact absurd hchars (by decide)
  · unfold isNumberedRegister at h
    split at h
    · rename_i cs heq
      rw [heq] at hchars
      have hcs : '(' ∈ cs.dropWhile (· == 'r') := by
        have hcs := (List.mem_cons.1 hchars).resolve_left (by decide)
        rw [← List.takeWhile_append_dropWhile (p := (· == 'r')) (l := cs)] at hcs
        refine (List.mem_append.1 hcs).resolve_left fun htake => ?_
        exact absurd (List.all_eq_true.1 List.all_takeWhile _ htake) (by decide)
      unfold isRegisterIndex at h
      split at h
      · rename_i c hindex
        rw [hindex, List.mem_singleton] at hcs
        rw [← hcs] at h
        exact absurd h (by decide)
      · rename_i c hindex
        rw [hindex] at hcs
        have hc : '(' = c := List.mem_singleton.1 ((List.mem_cons.1 hcs).resolve_left (by decide))
        rw [← hc] at h
        exact absurd h (by decide)
      · cases h
    · cases h

theorem expand_of_isRegister {token : String} (h : isRegister token = true) : expand token = token :=
  expand_of_no_call (paren_not_mem_of_isRegister h)

/-- The text without its call, and with the problems that were found before. -/
def Resolved.expanded (r : Resolved) : Resolved := ⟨r.problems, expand r.text⟩

/-- The target of a relative branch holds no call, so it may be expanded before or after it is made
relative. -/
theorem relativeTo_expand {address : Int} {text : String} {r : Resolved}
    (h : relativeTo address text = .ok r) (hproblems : r.problems = []) :
    relativeTo address (expand text) = .ok r.expanded := by
  obtain ⟨target, distance, hread, hwrite, rfl⟩ | ⟨-, rfl⟩ := relativeTo_eq_ok h
  · have hnumber : isNumber text = true := isNumber_of_readInt? (by rw [hread]; rfl)
    rw [expand_of_isNumber hnumber, h, Resolved.expanded, (readInt?_of_writeInt hwrite).1,
      expand_intText]
  · have hregister : isRegister text = true := by
      by_contra hnone
      rw [if_neg hnone] at hproblems
      cases hproblems
    rw [expand_of_isRegister hregister, h, Resolved.expanded, expand_of_isRegister hregister]

section Runs

variable {table : Table} {given : List String} {comments : Bool} {scope : Scope}

theorem resolveOperand_expand {address : Int} {token : String} {c : Constraint} {r : Resolved}
    (h : resolveOperand ⟨given, true, comments⟩ scope address token c = .ok r)
    (hproblems : r.problems = []) :
    resolveOperand ⟨given, false, comments⟩ scope address token c = .ok r.expanded := by
  obtain ⟨operand, relative, hclassify, hrelative, rfl⟩ := resolveOperand_eq_ok h
  have hnone : relative.problems = [] := (List.append_eq_nil_iff.1 hproblems).2
  rw [resolveOperand_eq, hclassify, Except.bind]
  cases hc : c.isRelative with
  | true =>
      simp only [hc, if_true] at hrelative
      simp only [Bool.false_eq_true, if_true, if_false, relativeTo_expand hrelative hnone]
      rfl
  | false =>
      simp only [hc, Bool.false_eq_true, if_true, if_false] at hrelative
      cases hrelative
      rfl

theorem resolveOperands_expand {address : Int} :
    ∀ {places : List (String × Constraint)} {resolved : List Resolved},
      resolveOperands ⟨given, true, comments⟩ scope address places = .ok resolved →
      (∀ r ∈ resolved, r.problems = []) →
        resolveOperands ⟨given, false, comments⟩ scope address places =
          .ok (resolved.map Resolved.expanded)
  | [], resolved, h, _ => by
      cases h
      rfl
  | (token, c) :: places, resolved, h, hproblems => by
      obtain ⟨r, hfirst, h⟩ := bind_eq_ok.1 h
      obtain ⟨rest, hrest, rfl⟩ := map_eq_ok.1 h
      rw [List.forall_mem_cons] at hproblems
      rw [resolveOperands, resolveOperand_expand hfirst hproblems.1, Except.bind,
        resolveOperands_expand hrest hproblems.2]
      rfl

/-! ## Runs -/

theorem assembleLine_expand {offset : Nat} {l : Instruction} {o : Outcome}
    (h : assembleLine table ⟨given, true, comments⟩ scope offset l = .ok o)
    (hproblems : o.problems = []) :
    ∃ o', assembleLine table ⟨given, false, comments⟩ scope offset l = .ok o' ∧
      o'.problems = [] := by
  obtain ⟨signature, resolved, hlookup, harity, hresolved, hnone, -⟩ :=
    assembleLine_of_no_problems h hproblems
  rw [assembleLine, hlookup]
  simp only [harity, ne_eq, not_true, if_false, resolveOperands_expand hresolved hnone, Except.map]
  refine ⟨_, rfl, List.flatMap_eq_nil_iff.2 ?_⟩
  exact List.forall_mem_map.2 hnone

theorem assembleLines_expand {offset : Nat} :
    ∀ {lines : List Instruction} {outcomes : List Outcome},
      assembleLines table ⟨given, true, comments⟩ scope offset lines = .ok outcomes →
      (∀ o ∈ outcomes, o.problems = []) →
        ∃ outcomes', assembleLines table ⟨given, false, comments⟩ scope offset lines = .ok outcomes' ∧
          ∀ o ∈ outcomes', o.problems = []
  | [], outcomes, h, hproblems => ⟨[], rfl, fun o ho => by cases ho⟩
  | l :: lines, outcomes, h, hproblems => by
      obtain ⟨o, hline, h⟩ := bind_eq_ok.1 h
      obtain ⟨rest, hrest, rfl⟩ := map_eq_ok.1 h
      rw [List.forall_mem_cons] at hproblems
      obtain ⟨o', hline', hnone⟩ := assembleLine_expand hline hproblems.1
      obtain ⟨rest', hrest', hnones⟩ := assembleLines_expand hrest hproblems.2
      refine ⟨o' :: rest', ?_, List.forall_mem_cons.2 ⟨hnone, hnones⟩⟩
      rw [assembleLines, hline', Except.bind, hrest']
      rfl

/-- If sections give no errors when calls are kept, they give none when calls are expanded. -/
theorem assembleSections_expand {names : List String} {chosen : List Section} :
    ∀ {rest before : List Section} {outcomes : List Outcome},
      assembleSections table ⟨given, true, comments⟩ names chosen before rest = .ok outcomes →
      (∀ o ∈ outcomes, o.problems = []) →
        ∃ outcomes',
          assembleSections table ⟨given, false, comments⟩ names chosen before rest = .ok outcomes' ∧
          ∀ o ∈ outcomes', o.problems = []
  | [], before, outcomes, h, hproblems => ⟨[], rfl, fun o ho => by cases ho⟩
  | s :: rest, before, outcomes, h, hproblems => by
      obtain ⟨first, others, hfirst, hothers, rfl⟩ := assembleSections_cons h
      rw [List.forall_mem_append] at hproblems
      obtain ⟨first', hfirst', hnone⟩ := assembleLines_expand hfirst hproblems.1
      obtain ⟨others', hothers', hnones⟩ := assembleSections_expand hothers hproblems.2
      refine ⟨first' ++ others', ?_, List.forall_mem_append.2 ⟨hnone, hnones⟩⟩
      simp only [assembleSections, hfirst', hothers']
      rfl

end Runs

/-! ## Results -/

/-- In a run without errors the lines of output are those of all instructions of the run. -/
theorem emitted_sourceLines {reading : Reading} {table : Table} {options : Options}
    {outcomes : List Outcome} (h : reading.outcomes table options = .ok outcomes)
    (hproblems : ∀ o ∈ outcomes, o.problems = []) :
    (emitted outcomes).map Prod.snd =
      ((reading.chosen options.sections).flatMap Section.lines).map Instruction.sourceLine := by
  rw [sourceLines_emitted h, List.filter_eq_self.2 (fits_of_no_problems h hproblems)]

/-- Advisories depend on the number of lines and on where they come from, not on their texts. -/
theorem advise_congr (advisories : List Advisory) {emission emission' : List (String × Nat)} :
    ∀ {count : Nat}, emission'.map Prod.snd = emission.map Prod.snd →
      advise advisories count emission' = advise advisories count emission := by
  induction emission generalizing emission' with
  | nil =>
      intro count h
      rw [List.map_eq_nil_iff.1 h]
  | cons line emission ih =>
      intro count h
      obtain ⟨line', rest', rfl, hline, hrest⟩ := List.map_eq_cons_iff.1 h
      rw [advise, advise, hline, ih hrest]

/-- An instruction whose line is emitted when calls are kept gives a line at the same place when they
are expanded, and each of its operands is expanded there. -/
theorem emits_expanded {reading : Reading} {table : Table} {given : List String} {comments : Bool}
    {outcomes outcomes' : List Outcome} {n : Nat} {line : String} (hvalid : reading.valid = true)
    (h : reading.outcomes table ⟨given, true, comments⟩ = .ok outcomes)
    (hproblems : ∀ o ∈ outcomes, o.problems = [])
    (h' : reading.outcomes table ⟨given, false, comments⟩ = .ok outcomes')
    (hproblems' : ∀ o ∈ outcomes', o.problems = [])
    (hline : ((emitted outcomes).map Prod.fst)[n]? = some line) :
    ∃ l texts, reading.Emits table ⟨given, true, comments⟩ n l texts ∧
      line = renderLine ⟨given, true, comments⟩ l texts ∧
      reading.Emits table ⟨given, false, comments⟩ n l (texts.map expand) := by
  rw [List.getElem?_map, Option.map_eq_some_iff] at hline
  obtain ⟨emission, hemission, rfl⟩ := hline
  obtain ⟨k, p, s, l, hs, hl, rfl⟩ := instruction_of_emitted h hemission
  obtain ⟨signature, resolved, hlookup, -, hresolved, hnone, hemitted⟩ :=
    resolved_at h hproblems hs hl
  obtain ⟨signature', resolved', hlookup', -, hresolved', -, hemitted'⟩ :=
    resolved_at h' hproblems' hs hl
  rw [hemission] at hemitted
  cases hemitted
  cases hlookup.symm.trans hlookup'
  cases hresolved'.symm.trans (resolveOperands_expand hresolved hnone)
  have htexts : (resolved.map Resolved.expanded).map Resolved.text =
      (resolved.map Resolved.text).map expand := by
    rw [List.map_map, List.map_map]
    rfl
  rw [htexts] at hemitted'
  have hmem := List.mem_of_getElem? hl
  exact ⟨l, resolved.map Resolved.text,
    ⟨hvalid, ⟨outcomes, h, hemission⟩, k, s, signature, resolved, hs, hmem, hlookup, hresolved, rfl⟩,
    rfl,
    ⟨hvalid, ⟨outcomes', h', hemitted'⟩, k, s, signature, _, hs, hmem, hlookup, hresolved',
      htexts.symm⟩⟩

/-- If the run that keeps calls has no errors, then neither has the run that expands them.  The two
give the same warnings, place the same sections, and emit the same lines except that in the second
every operand is expanded. -/
theorem expanding_commutes {source : String} {table : Table} {advisories : List Advisory}
    {given : List String} {comments : Bool} {a : Assembly}
    (hrun : ((Reading.of source).assemble table advisories ⟨given, true, comments⟩).result = .ok a)
    (hvalid : a.valid = true) :
    ∃ b, ((Reading.of source).assemble table advisories ⟨given, false, comments⟩).result = .ok b ∧
      b.valid = true ∧ b.diagnostics.warnings = a.diagnostics.warnings ∧
      b.placements = a.placements ∧ b.lines.length = a.lines.length ∧
      ∀ (n : Nat) (line : String), a.lines[n]? = some line →
        ∃ l texts, (Reading.of source).Emits table ⟨given, true, comments⟩ n l texts ∧
          line = renderLine ⟨given, true, comments⟩ l texts ∧
          (Line.read? line).map Line.operands = some texts ∧
          b.lines[n]? = some (renderLine ⟨given, true, comments⟩ l (texts.map expand)) := by
  have hreading := Reading.valid_of_assemble hrun hvalid
  obtain ⟨outcomes, houtcomes, rfl⟩ := Reading.assemble_result hreading hrun
  have hproblems := no_problems_of_valid hvalid
  obtain ⟨outcomes', houtcomes', hproblems'⟩ := assembleSections_expand houtcomes hproblems
  have hrun' : ((Reading.of source).assemble table advisories ⟨given, false, comments⟩).result =
      .ok (.ofOutcomes advisories (Reading.of source) ((Reading.of source).chosen given) outcomes') := by
    rw [Reading.assemble_result_eq, if_pos hreading, Reading.outcomes, houtcomes']
  have hsources : (emitted outcomes').map Prod.snd = (emitted outcomes).map Prod.snd :=
    (emitted_sourceLines houtcomes' hproblems').trans (emitted_sourceLines houtcomes hproblems).symm
  refine ⟨_, hrun', ?_, ?_, rfl, ?_, ?_⟩
  · have herrors : errorsOf outcomes' = [] :=
      List.flatMap_eq_nil_iff.2 fun o ho => by rw [hproblems' o ho, List.map_nil]
    have hread : (Reading.of source).diagnostics.errors = [] := List.isEmpty_iff.1 hreading
    simp only [Assembly.valid, Assembly.ofOutcomes, Diagnostics.valid, Diagnostics.merge, herrors,
      hread]
    rfl
  · simp only [Assembly.ofOutcomes, Diagnostics.merge, advise_congr advisories hsources]
  · have hlength := congrArg List.length hsources
    simpa only [Assembly.ofOutcomes, List.length_map] using hlength
  · intro n line hline
    obtain ⟨l, texts, hemits, rfl, hemits'⟩ :=
      emits_expanded hreading houtcomes hproblems houtcomes' hproblems' hline
    refine ⟨l, texts, hemits, rfl, ?_, (getElem?_lines_iff hrun').2 ⟨l, _, hemits', rfl⟩⟩
    rw [(printable_of_emits hemits).read?_renderLine]
    rfl

/-- A call behind a constant, one behind an alias, one that stands by itself, and a relative jump. -/
def calledOperands : String :=
  "define gas HASH(\"Gas\")\nalias word STR(\"ab\")\nloop: add r0 gas 5 # HASH(\"a\")\nmove r1 word\n" ++
    "move r2 hash(\"x y\")\njr loop"

/-- The calls of `calledOperands` are replaced by their numbers; that in a comment is no operand. -/
theorem expanding_commutes_called :
    ∃ a b, ((Reading.of calledOperands).assemble .standard [] ⟨[], true, true⟩).result = .ok a ∧
      a.valid = true ∧
      a.lines = ["add r0 HASH(\"Gas\") 5 # HASH(\"a\")", "move r1 STR(\"ab\")",
        "move r2 hash(\"x y\")", "jr -3"] ∧
      ((Reading.of calledOperands).assemble .standard [] ⟨[], false, true⟩).result = .ok b ∧
      b.valid = true ∧ b.diagnostics.warnings = a.diagnostics.warnings ∧
      ∃ l texts, texts = ["r0", "HASH(\"Gas\")", "5"] ∧
        b.lines[0]? = some (renderLine ⟨[], true, true⟩ l (texts.map expand)) := by
  have hresult : ((Reading.of calledOperands).assemble .standard [] ⟨[], true, true⟩).result.map
      (fun a => (a.valid, a.lines)) =
        .ok (true, ["add r0 HASH(\"Gas\") 5 # HASH(\"a\")", "move r1 STR(\"ab\")",
          "move r2 hash(\"x y\")", "jr -3"]) := by
    decide +kernel
  obtain ⟨a, hrun, ha⟩ := map_eq_ok.1 hresult
  obtain ⟨hvalid, hlines⟩ := Prod.mk.inj ha
  obtain ⟨b, hrun', hvalid', hwarnings, -, -, hat⟩ := expanding_commutes hrun hvalid
  obtain ⟨l, texts, -, -, hread, hline⟩ := hat 0 _ (by rw [hlines]; rfl)
  refine ⟨a, b, hrun, hvalid, hlines, hrun', hvalid', hwarnings, l, texts, ?_, hline⟩
  have htexts : (Line.read? "add r0 HASH(\"Gas\") 5 # HASH(\"a\")").map Line.operands =
      some ["r0", "HASH(\"Gas\")", "5"] := by decide +kernel
  exact Option.some.inj (hread.symm.trans htexts)

end ChipAsm
