import ChipAsm.Proofs.Address
import ChipAsm.Proofs.Numeral

/-!
# Operands of the output

In a run without errors that expands calls, an operand is settled: where words of no meaning are not
allowed and names are replaced, what is emitted is a number, a device pin or a register, of a kind
that the place allows (`Scope.Settles.literal`).  The kind was told from the token before anything was
replaced, so what has to be shown is that replacing keeps the kind: aliases are replaced before, a
hexadecimal numeral, a label, a call and a constant that is a number become numerals, and a numeral
stays one when it is made relative.

A constant may be defined as any word, and then stands for this word.  It counts as a number when the
kind is told, but what is emitted is the word as it was defined (`Scope.Settles.verbatim`).  So a word
may survive, even one that names another constant, but only where a constant brought it in.
-/

namespace ChipAsm

open ChipAsm.Token ChipAsm.Number

/-! ## Literals -/

/-- The text is of the kind by itself. -/
def Kind.fits (kind : Kind) (text : String) : Bool :=
  match kind with
  | .constant => isNumber text
  | .device => isDevice text
  | .register => isRegister text
  | .unknown => false

namespace Symbol

/-- The symbol stands for a number: it is a label, or a constant that is defined as a numeral within
the range of the doubles or as a call. -/
def isNumeric : Symbol → Bool
  | .constant _ _ text =>
    match Quantity.read? text with
    | some quantity => quantity.isFinite
    | none => isCall text
  | .label .. => true

/-- The symbol stands for its text: it is a constant that is defined as neither a numeral nor a
call. -/
def isVerbatim : Symbol → Bool
  | .constant _ _ text => (Quantity.read? text).isNone && !isCall text
  | .label .. => false

end Symbol

/-- The word names the symbol that was found. -/
def Scope.Names (scope : Scope) (word : String) (found : Found) : Prop :=
  Shape.of word = .word ∧ scope.find? word = some found

/-- What the token of an operand has become at a place where names are replaced and words of no
meaning are not allowed. -/
structure Scope.Settles (scope : Scope) (c : Constraint) (token text : String) : Prop where
  /-- It is of a kind that the place allows, unless the token names a constant that is no number. -/
  literal : (∀ found, scope.Names (scope.lookedUp token c) found → found.symbol.isNumeric = true) →
    ∃ kind, c.allows kind = true ∧ kind.fits text = true
  /-- A constant that stands for its text has become this text, where numbers are allowed, and the
  target of a relative branch only if it is a register. -/
  verbatim : ∀ found, scope.Names (scope.lookedUp token c) found →
    found.symbol.isVerbatim = true →
      text = found.symbol.text ∧ c.allows .constant = true ∧
        (c.isRelative = true → isRegister text = true)

/-! ## Calls -/

theorem expand_of_isCall_eq_false {token : String} (h : isCall token = false) :
    expand token = token := by
  rw [isCall, Option.isSome_eq_false_iff, Option.isNone_iff_eq_none] at h
  rw [expand, callValue?, h, Option.map_none]

theorem isNumber_expand_of_isCall {token : String} (h : isCall token = true) :
    isNumber (expand token) = true := by
  obtain ⟨call, hcall⟩ := Option.isSome_iff_exists.1 h
  rw [expand, callValue?, hcall, Option.map_some]
  exact isNumber_natDigits _

/-! ## Shapes -/

/-- What a shape tells of a token. -/
def Token.Shape.Tells (token : String) : Shape → Prop
  | .number => isNumber token = true
  | .call => isCall token = true
  | .device => isCall token = false ∧ isDevice token = true
  | .register => isCall token = false ∧ isRegister token = true
  | .hex n => readHex? token = some n
  | .word => isNumber token = false ∧ isCall token = false

theorem shape_tells (token : String) : (Shape.of token).Tells token := by
  rw [Shape.of]
  split
  · rename_i hnumber
    exact hnumber
  · rename_i hnumber
    split
    · rename_i hcall
      exact hcall
    · rename_i hcall
      rw [Bool.not_eq_true] at hnumber hcall
      split
      · rename_i hdevice
        exact ⟨hcall, hdevice⟩
      · split
        · rename_i hregister
          exact ⟨hcall, hregister⟩
        · split
          · rename_i n hhex
            exact hhex
          · exact ⟨hnumber, hcall⟩

/-! ## Replacing keeps the kind -/

/-- What a symbol that stands for a number becomes is a number, behind the expansion of calls. -/
theorem isNumber_resolve {symbol : Symbol} {offset : Int} {text : String}
    (hnumeric : symbol.isNumeric = true) (h : symbol.resolve offset = .ok text) :
    isNumber (expand text) = true := by
  cases symbol with
  | label home name position =>
      obtain ⟨rfl, -⟩ := readInt?_of_writeInt h
      rw [expand_intText]
      exact isNumber_intText _
  | constant home name defined =>
      simp only [Symbol.isNumeric] at hnumeric
      simp only [Symbol.resolve] at h
      cases hread : Quantity.read? defined with
      | some quantity =>
          rw [hread] at hnumeric h
          have hnumber := isNumber_plain hnumeric h
          rw [expand_of_isNumber hnumber]
          exact hnumber
      | none =>
          rw [hread] at hnumeric h
          cases h
          exact isNumber_expand_of_isCall hnumeric

/-- An operand that is known is of its kind by itself, behind the expansion of calls. -/
theorem fits_of_classify {word : String} {find : String → Option Found} {operand : Operand}
    (h : Operand.classify word find true = .ok operand)
    (hnumeric : ∀ found, Shape.of word = .word → find word = some found →
      found.symbol.isNumeric = true) (hknown : operand.kind ≠ .unknown) :
    operand.kind.fits (expand operand.text) = true := by
  have htells := shape_tells word
  rw [Operand.classify] at h
  cases hshape : Shape.of word with
  | number =>
      rw [hshape] at h htells
      cases h
      rw [expand_of_isNumber htells]
      exact htells
  | call =>
      rw [hshape] at h htells
      cases h
      exact isNumber_expand_of_isCall htells
  | device =>
      rw [hshape] at h htells
      cases h
      rw [expand_of_isCall_eq_false htells.1]
      exact htells.2
  | register =>
      rw [hshape] at h htells
      cases h
      rw [expand_of_isCall_eq_false htells.1]
      exact htells.2
  | hex n =>
      rw [hshape] at h
      obtain ⟨text, hwrite, rfl⟩ := map_eq_ok.1 h
      obtain ⟨rfl, -⟩ := readInt?_of_writeInt hwrite
      rw [expand_intText]
      exact isNumber_intText _
  | word =>
      rw [hshape] at h
      simp only [Operand.ofWord] at h
      cases hfind : find word with
      | none =>
          rw [hfind] at h
          cases h
          exact absurd rfl hknown
      | some found =>
          rw [hfind] at h
          obtain ⟨text, hresolve, rfl⟩ := map_eq_ok.1 h
          exact isNumber_resolve (hnumeric found hshape hfind) hresolve

/-- A text that is made relative without a problem stays of its kind. -/
theorem fits_of_relativeTo {address : Int} {text : String} {r : Resolved} {kind : Kind}
    (h : relativeTo address text = .ok r) (hfits : kind.fits text = true) :
    kind.fits r.text = true := by
  rw [relativeTo] at h
  split at h
  · rename_i target hread
    obtain ⟨n, -, h⟩ := bind_eq_ok.1 h
    obtain ⟨distance, hwrite, rfl⟩ := map_eq_ok.1 h
    obtain ⟨rfl, -⟩ := readInt?_of_writeInt hwrite
    have hnumber : isNumber text = true := isNumber_of_readInt? (by rw [hread]; rfl)
    cases kind with
    | constant => exact isNumber_intText _
    | device =>
        rw [isNumber_of_isDevice hfits] at hnumber
        cases hnumber
    | register =>
        have hregister : isRegister text = true := hfits
        rw [isRegister_of_isNumber hnumber] at hregister
        cases hregister
    | unknown => cases hfits
  · cases h
    exact hfits

/-- A text that is no number is made relative without a problem only if it is a register. -/
theorem isRegister_of_relativeTo {address : Int} {text : String} {r : Resolved}
    (hnumber : isNumber text = false) (h : relativeTo address text = .ok r)
    (hproblems : r.problems = []) : r.text = text ∧ isRegister text = true := by
  have hread : readInt? text = none := by
    rw [← Option.isNone_iff_eq_none, ← Option.isSome_eq_false_iff, ← Bool.not_eq_true]
    intro hsome
    rw [isNumber_of_readInt? hsome] at hnumber
    cases hnumber
  rw [relativeTo, hread] at h
  cases h
  refine ⟨rfl, ?_⟩
  by_contra hregister
  simp only [hregister] at hproblems
  cases hproblems

theorem isNumber_of_read?_eq_none {text : String} (h : Quantity.read? text = none) :
    isNumber text = false := by
  rw [Quantity.read?] at h
  split at h
  · cases h
  · rw [isNumber, Option.map_eq_none_iff.1 h]
    rfl

/-! ## Operands without problems -/

/-- Only a word that is not found stays unknown. -/
theorem word_of_unknown {word : String} {find : String → Option Found} {operand : Operand}
    (h : Operand.classify word find true = .ok operand) (hunknown : operand.kind = .unknown) :
    Shape.of word = .word ∧ find word = none := by
  rw [Operand.classify] at h
  cases hshape : Shape.of word with
  | number => rw [hshape] at h; cases h; cases hunknown
  | call => rw [hshape] at h; cases h; cases hunknown
  | device => rw [hshape] at h; cases h; cases hunknown
  | register => rw [hshape] at h; cases h; cases hunknown
  | hex n =>
      rw [hshape] at h
      obtain ⟨text, -, rfl⟩ := map_eq_ok.1 h
      cases hunknown
  | word =>
      refine ⟨rfl, ?_⟩
      rw [hshape] at h
      simp only [Operand.ofWord] at h
      cases hfind : find word with
      | none => rfl
      | some found =>
          rw [hfind] at h
          obtain ⟨text, -, rfl⟩ := map_eq_ok.1 h
          cases hunknown

section Operands

variable {options : Options} {scope : Scope} {address : Int} {token : String} {c : Constraint}
  {r : Resolved}

/-- What an operand without problems becomes, where names are replaced and words of no meaning are
not allowed: it is of a kind that is allowed there, and is made relative where the place asks for
that. -/
theorem resolveOperand_of_no_problems (hkeep : options.keepCalls = false)
    (hsubstitutes : c.substitutes = true) (hunknown : c.allowsUnknown = false)
    (h : resolveOperand options scope address token c = .ok r) (hproblems : r.problems = []) :
    ∃ operand,
      Operand.classify (scope.lookedUp token c) scope.find? true = .ok operand ∧
      operand.kind ≠ .unknown ∧ c.allows operand.kind = true ∧
      (if c.isRelative then relativeTo address (expand operand.text)
        else .ok ⟨[], expand operand.text⟩) = .ok r := by
  obtain ⟨operand, relative, hclassify, hrelative, rfl⟩ := resolveOperand_eq_ok h
  simp only [List.append_eq_nil_iff] at hproblems
  obtain ⟨⟨hlookup, hkind⟩, hnone⟩ := hproblems
  rw [hsubstitutes] at hclassify
  have hknown : operand.kind ≠ .unknown := by
    intro hkind
    obtain ⟨hword, hfind⟩ := word_of_unknown hclassify hkind
    simp [Scope.lookupProblems, hword, hfind, Scope.missing, hunknown] at hlookup
  have hallows : c.allows operand.kind = true := by
    have hsatisfies : operand.satisfies c = true := by
      by_contra hfails
      rw [if_neg hfails] at hkind
      cases hkind
    rw [Operand.satisfies] at hsatisfies
    split at hsatisfies
    · contradiction
    · rwa [hunknown, Bool.false_or] at hsatisfies
  refine ⟨operand, hclassify, hknown, hallows, ?_⟩
  rw [hlookup, hkind, List.nil_append, List.nil_append]
  simpa only [hkeep, Bool.false_eq_true, if_false] using hrelative

/-- An operand without problems is settled. -/
theorem settles_of_no_problems (hkeep : options.keepCalls = false)
    (hsubstitutes : c.substitutes = true) (hunknown : c.allowsUnknown = false)
    (h : resolveOperand options scope address token c = .ok r) (hproblems : r.problems = []) :
    scope.Settles c token r.text := by
  obtain ⟨operand, hclassify, hknown, hallows, hrelative⟩ :=
    resolveOperand_of_no_problems hkeep hsubstitutes hunknown h hproblems
  constructor
  · intro hnumeric
    refine ⟨operand.kind, hallows, ?_⟩
    have hfits := fits_of_classify hclassify
      (fun found hword hfind => hnumeric found ⟨hword, hfind⟩) hknown
    split at hrelative
    · exact fits_of_relativeTo hrelative hfits
    · cases hrelative
      exact hfits
  · rintro ⟨symbol, offset⟩ ⟨hword, hfind⟩ hverbatim
    cases symbol with
    | label home name position => cases hverbatim
    | constant home name text =>
        simp only [Symbol.isVerbatim, Bool.and_eq_true, Option.isNone_iff_eq_none,
          Bool.not_eq_true'] at hverbatim
        obtain ⟨hread, hcall⟩ := hverbatim
        simp only [Operand.classify, hword, hfind, Operand.ofWord, Symbol.resolve, hread, if_true]
          at hclassify
        cases hclassify
        simp only [expand_of_isCall_eq_false hcall] at hrelative
        split at hrelative
        · obtain ⟨htext, hregister⟩ :=
            isRegister_of_relativeTo (isNumber_of_read?_eq_none hread) hrelative hproblems
          rw [htext]
          exact ⟨rfl, hallows, fun _ => hregister⟩
        · rename_i hplain
          cases hrelative
          exact ⟨rfl, hallows, fun hc => absurd hc hplain⟩

end Operands

/-! ## Lines of output -/

/-- The line `n` of a result is that of an instruction of a placed section, and each of its operands
is settled where names are replaced and words of no meaning are not allowed. -/
def Reading.EmitsSettled (reading : Reading) (table : Table) (options : Options) (a : Assembly)
    (n : Nat) (line : String) : Prop :=
  ∃ k s l signature resolved,
    a.sections[k]? = some s ∧ s.lines[l.position]? = some l ∧ n = s.offset + l.position ∧
    table.lookup l.opcode = some signature ∧
    resolveOperands options (reading.scopeAt options.sections k) n
      (l.operands.zip signature.constraints) = .ok resolved ∧
    line = renderLine options l (resolved.map Resolved.text) ∧
    ∀ (i : Nat) token c, l.operands[i]? = some token → signature.constraints[i]? = some c →
      c.substitutes = true → c.allowsUnknown = false →
        ∃ text, (resolved.map Resolved.text)[i]? = some text ∧
          (reading.scopeAt options.sections k).Settles c token text

/-- Every line of output of a run without errors that expands calls has settled operands. -/
theorem output_operands_settled {source : String} {table : Table} {advisories : List Advisory}
    {options : Options} {a : Assembly} {n : Nat} {line : String}
    (hkeep : options.keepCalls = false)
    (hrun : ((Reading.of source).assemble table advisories options).result = .ok a)
    (hvalid : a.valid = true) (hline : a.lines[n]? = some line) :
    (Reading.of source).EmitsSettled table options a n line := by
  have hreading := Reading.valid_of_assemble hrun hvalid
  obtain ⟨outcomes, houtcomes, rfl⟩ := Reading.assemble_result hreading hrun
  have hproblems := no_problems_of_valid hvalid
  obtain ⟨emission, hemission, rfl⟩ : ∃ e, (emitted outcomes)[n]? = some e ∧ e.1 = line := by
    simpa [Assembly.ofOutcomes] using hline
  obtain ⟨k, p, s, l, hs, hl, rfl⟩ := instruction_of_emitted houtcomes hemission
  obtain ⟨signature, resolved, hlookup, harity, hresolved, hnone, hemitted⟩ :=
    resolved_at houtcomes hproblems hs hl
  rw [hemission] at hemitted
  cases hemitted
  have hposition := position_of_chosen hreading hs hl
  rw [hposition, ← Int.natCast_add, Nat.add_comm] at hresolved
  refine ⟨k, s, l, signature, resolved, hs, by rwa [hposition], by rw [hposition], hlookup,
    hresolved, rfl, ?_⟩
  intro i token c htoken hc hsubstitutes hunknown
  have hplace : (l.operands.zip signature.constraints)[i]? = some (token, c) := by
    rw [List.getElem?_zip_eq_some]
    exact ⟨htoken, hc⟩
  obtain ⟨r, hr, hoperand⟩ := forall₂_getElem? (resolveOperands_forall₂ hresolved) hplace
  refine ⟨r.text, by rw [List.getElem?_map, hr, Option.map_some], ?_⟩
  exact settles_of_no_problems hkeep hsubstitutes hunknown hoperand
    (hnone r (List.mem_of_getElem? hr))

/-- An alias of a constant, a call, a label and a constant that is a word. -/
def mixedOperands : String :=
  "define Speed 0x10\nalias pace Speed\ndefine Word Temperature\n"
    ++ "again: add r0 pace HASH(\"a\")\nmove r1 Word\njr again"

/-- The result of `mixedOperands`. -/
def mixedResult : Assembly where
  lines := ["add r0 16 3904355907", "move r1 Temperature", "jr -2"]
  diagnostics := ⟨[⟨.doubtfulTarget "Speed", some 1⟩], []⟩
  sections :=
    [{ name := "(default)"
       aliases := [("pace", "Speed")]
       symbols := [.constant 0 "Speed" "0x10", .constant 0 "Word" "Temperature", .label 0 "again" 0]
       lines := [⟨"add", ["r0", "pace", "HASH(\"a\")"], 3, 0, none⟩,
         ⟨"move", ["r1", "Word"], 4, 1, none⟩, ⟨"jr", ["again"], 5, 2, none⟩] }]

theorem output_operands_settled_mixed :
    ((Reading.of mixedOperands).assemble .standard [] {}).result = .ok mixedResult ∧
      (Reading.of mixedOperands).EmitsSettled .standard {} mixedResult 0 "add r0 16 3904355907" := by
  have hrun : ((Reading.of mixedOperands).assemble .standard [] {}).result = .ok mixedResult := by
    decide +kernel
  exact ⟨hrun, output_operands_settled rfl hrun rfl rfl⟩

/-- A constant that is defined as a word is taken for a number, and the word is emitted where only
registers and numbers are allowed. -/
theorem constant_word_survives :
    ((Reading.of "define T Temperature\nmove r0 T").assemble .standard [] {}).result =
        .ok ⟨["move r0 Temperature"], {}, [{
          name := "(default)"
          symbols := [.constant 0 "T" "Temperature"]
          lines := [⟨"move", ["r0", "T"], 1, 0, none⟩] }]⟩ ∧
      Table.standard.lookup "move" = some ⟨"move", [InstructionSet.out, InstructionSet.val]⟩ ∧
      InstructionSet.val.substitutes = true ∧ InstructionSet.val.allowsUnknown = false ∧
      ¬ ∃ kind, InstructionSet.val.allows kind = true ∧ kind.fits "Temperature" = true := by
  refine ⟨by decide +kernel, by decide +kernel, by decide, by decide, ?_⟩
  rintro ⟨kind, -, hfits⟩
  cases kind with
  | constant => revert hfits; decide +kernel
  | device => revert hfits; decide
  | register => revert hfits; decide
  | unknown => cases hfits

end ChipAsm
