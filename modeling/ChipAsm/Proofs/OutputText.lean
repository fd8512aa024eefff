import ChipAsm.Proofs.Emission
import ChipAsm.Proofs.Rereading

/-!
# The output as a source

A line of output is a mnemonic, operands and, where it is asked for, a comment.  Whatever a run makes of
an operand is one token without a line feed (`isOperand_of_resolveOperand`): a token of the source, a
numeral, or what a constant is defined as.  A kept call may hold blanks and the marks of comments, but
only between its quotes.  So the output can be divided into its lines again, and each of them is read as
the parts that it was made of (`output_lines_reread`).

This holds of every run, also of one that records errors.  Such a run leaves out the lines of some
instructions, so the index of a line does not tell its instruction; the number of its source line does.
-/

namespace ChipAsm

open ChipAsm.Text ChipAsm.Token ChipAsm.Number

/-! ## Operands -/

/-- The text can stand as an operand of a line: it is one token without a line feed. -/
structure IsOperand (text : String) : Prop where
  token : Line.IsToken text.toList
  newline : '\n' ∉ text.toList

theorem isOperand_of_isAtom {text : String} (h : Line.isAtom text.toList = true) : IsOperand text :=
  ⟨.inl h, fun hmem => absurd (Line.not_blank_of_isAtom h hmem) (by decide)⟩

theorem isOperand_intText (n : Int) : IsOperand (intText n) := isOperand_of_isAtom (isAtom_intText n)

theorem isOperand_expand {text : String} (h : IsOperand text) : IsOperand (expand text) := by
  rw [expand]
  split
  · rename_i n _
    exact isOperand_intText n
  · exact h

theorem stripChars_subset (cs : List Char) : stripChars cs ⊆ cs :=
  have hfront := dropBlanksEnd_prefix (dropBlanks cs)
  List.Subset.trans hfront.subset (Line.dropBlanks_subset cs)

theorem isOperand_of_mem_sourceLines {source : String} :
    ∀ l ∈ sourceLines source, ∀ token ∈ l.line.operands, IsOperand token := by
  intro l hl token htoken
  obtain ⟨text, htext, hline⟩ := ofText?_of_mem hl
  have hchars := Line.subset_of_mem_operands (stopsAt_of_ofText? hline).1 token htoken
  refine ⟨isToken_of_ofText? hline token htoken, fun hmem => ?_⟩
  exact not_mem_of_mem_splitAtSep htext (stripChars_subset text (hchars hmem))

theorem isOperand_of_resolve {symbol : Symbol} {offset : Int} {text : String}
    (hconstant : ∀ home name defined, symbol = .constant home name defined → IsOperand defined)
    (h : symbol.resolve offset = .ok text) : IsOperand text := by
  obtain ⟨home, name, position, -, hwrite⟩ | ⟨home, name, defined, quantity, -, hread, hplain⟩ |
    ⟨home, name, hsymbol, -⟩ := resolve_eq_ok h
  · rw [(readInt?_of_writeInt hwrite).1]
    exact isOperand_intText _
  · exact isOperand_of_isAtom (isAtom_plain hread hplain)
  · exact hconstant home name text hsymbol

theorem isOperand_of_classify {scope : Scope} (hscope : scope.MadeOf IsOperand) {word : String}
    (hword : IsOperand word) {substitute : Bool} {operand : Operand}
    (h : Operand.classify word scope.find? substitute = .ok operand) : IsOperand operand.text := by
  obtain ⟨htext, -⟩ | ⟨n, -, hwrite⟩ | ⟨found, hfind, hresolve⟩ := classify_eq_ok h
  · rwa [htext]
  · rw [(readInt?_of_writeInt hwrite).1]
    exact isOperand_intText _
  · refine isOperand_of_resolve (fun home name defined hsymbol => ?_) hresolve
    exact hscope.constant (hfind.trans (by rw [← hsymbol]))

/-- What an operand becomes can stand as an operand again. -/
theorem isOperand_of_resolveOperand {options : Options} {scope : Scope} {address : Int}
    {token : String} {c : Constraint} {r : Resolved} (hscope : scope.MadeOf IsOperand)
    (htoken : IsOperand token) (h : resolveOperand options scope address token c = .ok r) :
    IsOperand r.text := by
  obtain ⟨operand, relative, hclassify, hrelative, rfl⟩ := resolveOperand_eq_ok h
  have hoperand := isOperand_of_classify hscope (hscope.lookedUp htoken c) hclassify
  have htext : IsOperand (if options.keepCalls then operand.text else expand operand.text) := by
    split
    · exact hoperand
    · exact isOperand_expand hoperand
  split at hrelative
  · obtain ⟨target, distance, -, hwrite, rfl⟩ | ⟨-, rfl⟩ := relativeTo_eq_ok hrelative
    · rw [(readInt?_of_writeInt hwrite).1]
      exact isOperand_intText _
    · exact htext
  · cases hrelative
    exact htext

theorem isOperand_of_resolveOperands {options : Options} {scope : Scope} {address : Int}
    {tokens : List String} {cs : List Constraint} {resolved : List Resolved}
    (hscope : scope.MadeOf IsOperand) (htokens : ∀ token ∈ tokens, IsOperand token)
    (h : resolveOperands options scope address (tokens.zip cs) = .ok resolved) :
    ∀ text ∈ resolved.map Resolved.text, IsOperand text := by
  rw [List.forall_mem_map]
  intro r hr
  obtain ⟨i, hi⟩ := List.mem_iff_getElem?.1 hr
  obtain ⟨⟨token, c⟩, hplace, hresolve⟩ := forall₂_getElem? (resolveOperands_forall₂ h).flip hi
  have htoken := htokens token (List.of_mem_zip (List.mem_of_getElem? hplace)).1
  exact isOperand_of_resolveOperand hscope htoken hresolve

/-! ## Lines -/

/-- The comment that a run puts behind the line of an instruction. -/
def Instruction.shownComment (l : Instruction) (options : Options) : Option String :=
  if options.comments then l.comment else none

theorem toList_renderLine (options : Options) (l : Instruction) (texts : List String) :
    (renderLine options l texts).toList =
      l.opcode.toList ++ ((texts.map String.toList).flatMap (' ' :: ·) ++
        Line.commentChars (l.shownComment options)) := by
  rw [← List.append_assoc, ← toList_intercalate_words, renderLine, Instruction.shownComment]
  cases options.comments with
  | false => exact (List.append_nil _).symm
  | true =>
      cases l.comment with
      | none => exact (List.append_nil _).symm
      | some comment => simp [Line.commentChars]

/-- The parts that a line of output is made of. -/
structure Printable (options : Options) (l : Instruction) (texts : List String) : Prop where
  opcode : Line.isMnemonic l.opcode.toList = true
  operands : ∀ text ∈ texts, IsOperand text
  comment : ∀ text ∈ l.shownComment options, Line.IsComment text.toList

namespace Printable

variable {options : Options} {l : Instruction} {texts : List String}

theorem read?_renderLine (h : Printable options l texts) :
    Line.read? (renderLine options l texts) =
      some ⟨.ofMnemonic l.opcode, texts, l.shownComment options⟩ := by
  rw [Line.read?, toList_renderLine]
  exact Line.ofChars?_printed h.opcode (fun text htext => (h.operands text htext).token) h.comment

theorem newline_not_mem (h : Printable options l texts) :
    '\n' ∉ (renderLine options l texts).toList := by
  rw [toList_renderLine, List.mem_append, List.mem_append, List.mem_flatMap]
  rintro (hopcode | ⟨chars, hchars, htext⟩ | hcomment)
  · have hblank := Line.not_blank_of_isAtom (Line.isAtom_of_isMnemonic h.opcode) hopcode
    exact absurd hblank (by decide)
  · obtain ⟨text, hmem, rfl⟩ := List.mem_map.1 hchars
    rcases List.mem_cons.1 htext with hspace | htext
    · exact absurd hspace (by decide)
    · exact (h.operands text hmem).newline htext
  · cases hshown : l.shownComment options with
    | none =>
        rw [hshown] at hcomment
        cases hcomment
    | some comment =>
        rw [hshown] at hcomment
        simp only [Line.commentChars, List.mem_cons, Char.reduceEq, false_or] at hcomment
        exact (h.comment comment hshown).newline hcomment

end Printable

/-! ## Emitted lines -/

/-- A run emits the line of an instruction with the given operands as line `n` of its output: the
instruction stands in a section of the run, its operands are resolved in the scope of that section, and
the line is recorded with the number of its source line. -/
structure Reading.Emits (reading : Reading) (table : Table) (options : Options) (n : Nat)
    (l : Instruction) (texts : List String) : Prop where
  valid : reading.valid = true
  recorded : ∃ outcomes, reading.outcomes table options = .ok outcomes ∧
    (emitted outcomes)[n]? = some (renderLine options l texts, l.sourceLine)
  resolved : ∃ k s signature resolved, (reading.chosen options.sections)[k]? = some s ∧ l ∈ s.lines ∧
    table.lookup l.opcode = some signature ∧
    resolveOperands options (reading.scopeAt options.sections k) (l.position + s.offset)
      (l.operands.zip signature.constraints) = .ok resolved ∧
    texts = resolved.map Resolved.text

/-- Every line of output is emitted for an instruction. -/
theorem emits_of_getElem? {reading : Reading} {table : Table} {options : Options}
    {outcomes : List Outcome} {n : Nat} {line : String} {number : Nat}
    (hvalid : reading.valid = true) (h : reading.outcomes table options = .ok outcomes)
    (hline : (emitted outcomes)[n]? = some (line, number)) :
    ∃ l texts, reading.Emits table options n l texts ∧ renderLine options l texts = line := by
  obtain ⟨o, ho, hmade⟩ := List.mem_filterMap.1 (List.mem_of_getElem? hline)
  obtain ⟨text, htext, hpair⟩ := Option.map_eq_some_iff.1 hmade
  cases hpair
  obtain ⟨i, hi⟩ := List.mem_iff_getElem?.1 ho
  obtain ⟨k, p, s, l, hs, hl, -, hassemble⟩ := instruction_of_outcome h hi
  obtain ⟨problem, rfl⟩ | ⟨signature, resolved, hlookup, -, hresolved, rfl⟩ :=
    assembleLine_eq_ok hassemble
  · cases htext
  · cases htext
    exact ⟨l, _, ⟨hvalid, ⟨outcomes, h, hline⟩, k, s, signature, resolved, hs,
      List.mem_of_getElem? hl, hlookup, hresolved, rfl⟩, rfl⟩

theorem isComment_of_mem_chosen {source : String} {given : List String} {s : Section}
    {l : Instruction} (hvalid : (Reading.of source).valid = true)
    (h : s ∈ (Reading.of source).chosen given) (hl : l ∈ s.lines) :
    ∀ text ∈ l.comment, Line.IsComment text.toList := by
  obtain ⟨x, hx, position, hinstruction⟩ := sourceLine_of_mem_chosen hvalid h hl
  obtain ⟨text, -, htext⟩ := ofText?_of_mem hx
  rw [comment_of_instruction? hinstruction]
  exact fun comment hcomment => Line.isComment_of_ofChars? (stopsAt_of_ofText? htext).1 hcomment

theorem printable_of_emits {source : String} {table : Table} {options : Options} {n : Nat}
    {l : Instruction} {texts : List String} (h : (Reading.of source).Emits table options n l texts) :
    Printable options l texts := by
  obtain ⟨k, s, signature, resolved, hs, hl, -, hresolved, rfl⟩ := h.resolved
  have hmem := List.mem_of_getElem? hs
  have hmade := madeOf_of_mem_chosen h.valid isOperand_of_mem_sourceLines hmem
  constructor
  · exact ((spelled_of_mem_chosen h.valid hmem).lines l hl).opcode
  · exact isOperand_of_resolveOperands (scopeAt_madeOf h.valid isOperand_of_mem_sourceLines k)
      (hmade.lines l hl) hresolved
  · intro text htext
    rw [Instruction.shownComment] at htext
    split at htext
    · exact isComment_of_mem_chosen h.valid hmem hl text htext
    · cases htext

/-- The lines of output of a run are those that it emits. -/
theorem getElem?_lines_iff {source : String} {table : Table} {advisories : List Advisory}
    {options : Options} {a : Assembly} {n : Nat} {line : String}
    (hrun : ((Reading.of source).assemble table advisories options).result = .ok a) :
    a.lines[n]? = some line ↔
      ∃ l texts, (Reading.of source).Emits table options n l texts ∧
        renderLine options l texts = line := by
  cases hvalid : (Reading.of source).valid with
  | false =>
      rw [Reading.assemble, hvalid, if_neg (by simp)] at hrun
      cases hrun
      constructor
      · intro hline
        cases hline
      · rintro ⟨l, texts, hemits, -⟩
        exact absurd (hvalid.symm.trans hemits.valid) (by decide)
  | true =>
      obtain ⟨outcomes, houtcomes, rfl⟩ := Reading.assemble_result hvalid hrun
      rw [Assembly.ofOutcomes, List.getElem?_map, Option.map_eq_some_iff]
      constructor
      · rintro ⟨⟨text, number⟩, hline, rfl⟩
        exact emits_of_getElem? hvalid houtcomes hline
      · rintro ⟨l, texts, hemits, rfl⟩
        obtain ⟨outcomes', houtcomes', hline⟩ := hemits.recorded
        cases houtcomes.symm.trans houtcomes'
        exact ⟨_, hline, rfl⟩

/-- The output is divided into its lines by its line feeds.  Each of its lines is emitted for an
instruction, and is read as the mnemonic, the operands and the comment that it was made of. -/
theorem output_lines_reread {source : String} {table : Table} {advisories : List Advisory}
    {options : Options} {a : Assembly}
    (hrun : ((Reading.of source).assemble table advisories options).result = .ok a) :
    (∀ line ∈ a.lines, '\n' ∉ line.toList) ∧
    (a.output ≠ "" → (linesOf a.output).map String.ofList = a.lines) ∧
    (∀ n line, a.lines[n]? = some line ↔
      ∃ l texts, (Reading.of source).Emits table options n l texts ∧
        renderLine options l texts = line) ∧
    ∀ n l texts, (Reading.of source).Emits table options n l texts →
      Line.read? (renderLine options l texts) =
        some ⟨.ofMnemonic l.opcode, texts, if options.comments then l.comment else none⟩ := by
  have hnewline : ∀ line ∈ a.lines, '\n' ∉ line.toList := by
    intro line hline
    obtain ⟨n, hn⟩ := List.mem_iff_getElem?.1 hline
    obtain ⟨l, texts, hemits, rfl⟩ := (getElem?_lines_iff hrun).1 hn
    exact (printable_of_emits hemits).newline_not_mem
  refine ⟨hnewline, fun houtput => ?_, fun n line => getElem?_lines_iff hrun,
    fun n l texts hemits => (printable_of_emits hemits).read?_renderLine⟩
  have hne : a.lines ≠ [] := by
    intro hnil
    rw [Assembly.output, hnil] at houtput
    exact houtput rfl
  rw [Assembly.output, linesOf_joinLines hne hnewline, List.map_map]
  exact List.map_id'' (fun line => String.ofList_toList) a.lines

/-- The call holds blanks and both marks of a comment, and a line before it has an error. -/
def keptCall : String :=
  "define gas HASH(\"a # b; c\")\nalias pump d0\nbogus r1\nloop: move r0 gas # keep; this\nj loop"

/-- The lines of `keptCall` are read again, the call as one operand. -/
theorem output_lines_reread_keptCall :
    ∃ a, ((Reading.of keptCall).assemble .standard [] ⟨[], true, true⟩).result = .ok a ∧
      (linesOf a.output).map String.ofList =
        ["alias pump d0", "move r0 HASH(\"a # b; c\") # keep; this", "j 2"] ∧
      ∃ l texts, (Reading.of keptCall).Emits .standard ⟨[], true, true⟩ 1 l texts ∧
        Line.read? "move r0 HASH(\"a # b; c\") # keep; this" =
          some ⟨.ofMnemonic l.opcode, texts, l.comment⟩ := by
  have hlines : ((Reading.of keptCall).assemble .standard [] ⟨[], true, true⟩).result.map
      Assembly.lines =
        .ok ["alias pump d0", "move r0 HASH(\"a # b; c\") # keep; this", "j 2"] := by
    decide +kernel
  obtain ⟨a, hrun, ha⟩ := map_eq_ok.1 hlines
  obtain ⟨-, houtput, hemitted, hread⟩ := output_lines_reread hrun
  refine ⟨a, hrun, ?_, ?_⟩
  · rw [houtput (by rw [Assembly.output, ha]; decide), ha]
  · obtain ⟨l, texts, hemits, hline⟩ := (hemitted 1 _).1 (by rw [ha]; rfl)
    refine ⟨l, texts, hemits, ?_⟩
    rw [← hline, hread 1 l texts hemits]
    rfl

end ChipAsm
