import ChipAsm.Proofs.Literal
import ChipAsm.Proofs.Origin
import ChipAsm.Proofs.Shortest
import ChipAsm.Proofs.SourceText

/-!
# The spelling of the output

All that a source spells is made of mnemonics and tokens (`spelled_of_mem_chosen`).  A run that expands
calls makes each operand into an atom that is neither a call nor a hexadecimal numeral
(`isFixed_of_resolveOperand`).  Such a text is not changed by looking at it again: it is a numeral, a
device pin, a register, or a word.  So a line of output is a mnemonic and fixed operands with a space
between any two, and it can be taken apart at its spaces (`wellWritten_of_mem_lines`).
-/

namespace ChipAsm

open ChipAsm.Text ChipAsm.Token ChipAsm.Number

/-! ## What a source spells -/

namespace Line

theorem isMnemonic_of_splitOpcode {cs rest : List Char} {opcode : String}
    (h : splitOpcode cs = (some opcode, rest)) : isMnemonic opcode.toList = true := by
  cases cs with
  | nil => cases h
  | cons c cs =>
      rw [splitOpcode] at h
      split at h
      · rename_i hc
        cases h
        simp [isMnemonic, hc]
      · cases h

theorem isMnemonic_of_ofChars? {cs : List Char} {line : Line} {label : Option String}
    {opcode : String} (hcs : StopsAt isBlank cs) (h : ofChars? cs = some line)
    (hhead : line.head = .code label (some opcode)) : isMnemonic opcode.toList = true := by
  have hcode : ∀ {label' : Option String} {cs : List Char}, code? label' cs = some line →
      isMnemonic opcode.toList = true := by
    intro label' cs hcode
    rw [code?_eq] at hcode
    obtain ⟨comment, -, rfl⟩ := withOperands?_eq_some hcode
    exact isMnemonic_of_splitOpcode (Prod.ext (Head.code.inj hhead).2 rfl)
  rcases ofChars?_code hcs h hhead with ⟨name, rest, -, hlabelled | ⟨hnone, hbare⟩⟩ | hplain
  · exact hcode hlabelled
  · rw [(bare?_of_code?_eq_none hnone hbare).2] at hhead
    cases hhead
  · exact hcode hplain

end Line

/-- The instruction is a mnemonic with tokens behind it. -/
structure Instruction.Spelled (l : Instruction) : Prop where
  opcode : Line.isMnemonic l.opcode.toList = true
  operands : ∀ token ∈ l.operands, Line.IsToken token.toList

/-- What the section holds is made of mnemonics and tokens. -/
structure Section.Spelled (s : Section) : Prop where
  lines : ∀ l ∈ s.lines, l.Spelled
  aliases : ∀ pair ∈ s.aliases, Line.IsToken pair.2.toList
  constants : ∀ home name text, .constant home name text ∈ s.symbols → Line.IsToken text.toList

theorem isToken_of_ofText? {text : List Char} {line : Line} (h : Line.ofText? text = some line) :
    ∀ token ∈ line.operands, Line.IsToken token.toList :=
  Line.isToken_of_mem_operands (stopsAt_of_ofText? h).1

theorem isMnemonic_of_instruction? {text : List Char} {l : SourceLine} {position : Nat}
    {x : Instruction} (h : Line.ofText? text = some l.line)
    (hx : l.instruction? position = some x) : Line.isMnemonic x.opcode.toList = true := by
  obtain ⟨hread, hstops⟩ := stopsAt_of_ofText? h
  obtain ⟨number, head, operands, comment⟩ := l
  obtain ⟨⟨opcode, given⟩, hgiven, rfl⟩ := Option.map_eq_some_iff.1 hx
  cases head with
  | code label opcode' =>
      cases opcode' with
      | none => cases hgiven
      | some opcode' =>
          cases hgiven
          exact Line.isMnemonic_of_ofChars? hstops hread rfl
  | directive word =>
      simp only [Line.statement, Statement.instruction?_ofDirective] at hgiven
      split at hgiven
      · split at hgiven
        · cases hgiven
          exact (by decide : Line.isMnemonic "alias".toList = true)
        · cases hgiven
      · cases hgiven

theorem isToken_of_mem_sourceLines {source : String} :
    ∀ l ∈ sourceLines source, ∀ token ∈ l.line.operands, Line.IsToken token.toList := by
  intro l hl
  obtain ⟨text, -, htext⟩ := ofText?_of_mem hl
  exact isToken_of_ofText? htext

/-- What the sections of a run hold is made of mnemonics and tokens. -/
theorem spelled_of_mem_chosen {source : String} {given : List String} {s : Section}
    (hvalid : (Reading.of source).valid = true) (h : s ∈ (Reading.of source).chosen given) :
    s.Spelled := by
  have hmade := madeOf_of_mem_chosen hvalid isToken_of_mem_sourceLines h
  refine ⟨fun x hx => ⟨?_, hmade.lines x hx⟩, hmade.aliases, hmade.constants⟩
  obtain ⟨l, hl, position, hx⟩ := sourceLine_of_mem_chosen hvalid h hx
  obtain ⟨text, -, htext⟩ := ofText?_of_mem hl
  exact isMnemonic_of_instruction? htext hx

/-! ## Fixed texts -/

/-- A token of the shape is not replaced by a numeral. -/
def Token.Shape.isSteady : Shape → Bool
  | .call => false
  | .hex _ => false
  | _ => true

/-- The text is an atom, and neither a call nor a hexadecimal numeral. -/
def isFixed (text : String) : Bool := Line.isAtom text.toList && (Shape.of text).isSteady

theorem isAtom_of_isFixed {text : String} (h : isFixed text = true) :
    Line.isAtom text.toList = true := (Bool.and_eq_true_iff.1 h).1

theorem isFixed_of_isNumber {text : String} (hatom : Line.isAtom text.toList = true)
    (hnumber : isNumber text = true) : isFixed text = true := by
  simp [isFixed, hatom, Shape.of, hnumber, Shape.isSteady]

theorem isFixed_intText (n : Int) : isFixed (intText n) = true :=
  isFixed_of_isNumber (isAtom_intText n) (isNumber_intText n)

theorem isFixed_natDigits (n : Nat) : isFixed (String.ofList (natDigits n)) = true :=
  isFixed_intText n

theorem isAtom_of_isCall_eq_false {token : String} (h : Line.IsToken token.toList)
    (hcall : isCall token = false) : Line.isAtom token.toList = true := by
  rcases h with hatom | ⟨call, hsplit⟩
  · exact hatom
  · simp [isCall, Call.read?, hsplit] at hcall

/-- A token that is no hexadecimal numeral is fixed once calls are expanded. -/
theorem isFixed_expand {token : String} (h : Line.IsToken token.toList)
    (hhex : ∀ n, Shape.of token ≠ .hex n) : isFixed (expand token) = true := by
  cases hcall : isCall token with
  | true =>
      obtain ⟨call, hread⟩ := Option.isSome_iff_exists.1 hcall
      rw [expand, callValue?, hread, Option.map_some]
      exact isFixed_natDigits _
  | false =>
      rw [expand_of_isCall_eq_false hcall, isFixed, isAtom_of_isCall_eq_false h hcall,
        Bool.true_and]
      have htells := shape_tells token
      cases hshape : Shape.of token with
      | number | device | register | word => rfl
      | call =>
          rw [hshape] at htells
          exact absurd (htells.symm.trans hcall) (by decide)
      | hex n => exact absurd hshape (hhex n)

theorem expand_of_isAtom {text : String} (h : Line.isAtom text.toList = true) :
    expand text = text := by
  apply expand_of_no_call
  intro hmem
  rcases Line.mem_isAtom h hmem with hparen | hparen
  · exact absurd hparen (by decide)
  · exact absurd hparen (by decide)

theorem isFixed_plain {token text : String} {quantity : Quantity}
    (hread : Quantity.read? token = some quantity) (h : quantity.plain = .ok text) :
    isFixed text = true := by
  cases hfinite : quantity.isFinite with
  | true => exact isFixed_of_isNumber (isAtom_plain hread h) (isNumber_plain hfinite h)
  | false =>
      cases quantity with
      | whole n => cases hfinite
      | double x =>
          cases x with
          | finite negative m q => cases hfinite
          | infinite negative =>
              cases h
              cases negative <;> decide +kernel
          | nan =>
              cases h
              decide +kernel

theorem shape_ne_hex_of_read?_eq_none {text : String} (h : Quantity.read? text = none) (n : Nat) :
    Shape.of text ≠ .hex n := by
  intro hshape
  have htells := shape_tells text
  rw [hshape] at htells
  rw [Quantity.read?, htells] at h
  cases h

/-! ## Operands of the output -/

/-- All that the scope sees is made of mnemonics and tokens. -/
def Scope.Spelled (scope : Scope) : Prop := ∀ s ∈ scope.visible, s.Spelled

theorem Scope.Spelled.madeOf {scope : Scope} (h : scope.Spelled) :
    scope.MadeOf fun token => Line.IsToken token.toList :=
  fun s hs => ⟨fun x hx => ((h s hs).lines x hx).operands, (h s hs).aliases, (h s hs).constants⟩

/-- What a symbol stands for: the address of a label, the number that a constant is defined as, or the
text of a constant that is defined as none. -/
theorem resolve_eq_ok {symbol : Symbol} {offset : Int} {text : String}
    (h : symbol.resolve offset = .ok text) :
    (∃ home name position, symbol = .label home name position ∧
        writeInt (position + offset) = .ok text) ∨
      (∃ home name defined quantity, symbol = .constant home name defined ∧
        Quantity.read? defined = some quantity ∧ quantity.plain = .ok text) ∨
      ∃ home name, symbol = .constant home name text ∧ Quantity.read? text = none := by
  cases symbol with
  | label home name position => exact .inl ⟨home, name, position, rfl, h⟩
  | constant home name defined =>
      rw [Symbol.resolve] at h
      cases hread : Quantity.read? defined with
      | some quantity =>
          rw [hread] at h
          exact .inr (.inl ⟨home, name, defined, quantity, rfl, hread, h⟩)
      | none =>
          rw [hread] at h
          cases h
          exact .inr (.inr ⟨home, name, rfl, hread⟩)

/-- What a word becomes: itself, unless it is a hexadecimal numeral or names a symbol that is
replaced. -/
theorem classify_eq_ok {word : String} {find : String → Option Found} {substitute : Bool}
    {operand : Operand} (h : Operand.classify word find substitute = .ok operand) :
    (operand.text = word ∧ ∀ n, Shape.of word ≠ .hex n) ∨
      (∃ n : Nat, Shape.of word = .hex n ∧ writeInt n = .ok operand.text) ∨
      ∃ found, find word = some found ∧ found.symbol.resolve found.offset = .ok operand.text := by
  rw [Operand.classify] at h
  cases hshape : Shape.of word with
  | number | call | device | register =>
      rw [hshape] at h
      cases h
      exact .inl ⟨rfl, fun n => by simp⟩
  | hex n =>
      rw [hshape] at h
      obtain ⟨text, hwrite, rfl⟩ := map_eq_ok.1 h
      exact .inr (.inl ⟨n, rfl, hwrite⟩)
  | word =>
      rw [hshape] at h
      simp only [Operand.ofWord] at h
      cases hfind : find word with
      | none =>
          rw [hfind] at h
          cases h
          exact .inl ⟨rfl, fun n => by simp⟩
      | some found =>
          rw [hfind] at h
          simp only at h
          split at h
          · obtain ⟨text, hresolve, rfl⟩ := map_eq_ok.1 h
            exact .inr (.inr ⟨found, rfl, hresolve⟩)
          · cases h
            exact .inl ⟨rfl, fun n => by simp⟩

/-- A text that is made relative is an integer, or stays as it is. -/
theorem relativeTo_eq_ok {address : Int} {text : String} {r : Resolved}
    (h : relativeTo address text = .ok r) :
    (∃ target distance, readInt? text = some (.ok target) ∧
        writeInt (target - address) = .ok distance ∧ r = ⟨[], distance⟩) ∨
      readInt? text = none ∧ r = ⟨if isRegister text then [] else [.branchTarget text], text⟩ := by
  rw [relativeTo] at h
  split at h
  · rename_i target hread
    obtain ⟨n, rfl, h⟩ := bind_eq_ok.1 h
    obtain ⟨distance, hwrite, rfl⟩ := map_eq_ok.1 h
    exact .inl ⟨n, distance, hread, hwrite, rfl⟩
  · rename_i hread
    cases h
    exact .inr ⟨hread, rfl⟩

theorem isFixed_resolve {symbol : Symbol} {offset : Int} {text : String}
    (hspelled : ∀ home name defined, symbol = .constant home name defined →
      Line.IsToken defined.toList)
    (h : symbol.resolve offset = .ok text) : isFixed (expand text) = true := by
  obtain ⟨home, name, position, -, hwrite⟩ | ⟨home, name, defined, quantity, -, hread, hplain⟩ |
    ⟨home, name, hsymbol, hread⟩ := resolve_eq_ok h
  · obtain ⟨rfl, -⟩ := readInt?_of_writeInt hwrite
    rw [expand_intText]
    exact isFixed_intText _
  · -- The text of a number has no parenthesis, so it is not expanded again.
    have hfixed := isFixed_plain hread hplain
    rwa [expand_of_isAtom (isAtom_of_isFixed hfixed)]
  · exact isFixed_expand (hspelled home name text hsymbol) (shape_ne_hex_of_read?_eq_none hread)

theorem isFixed_of_classify {scope : Scope} (hscope : scope.Spelled) {word : String}
    (hword : Line.IsToken word.toList) {substitute : Bool} {operand : Operand}
    (h : Operand.classify word scope.find? substitute = .ok operand) :
    isFixed (expand operand.text) = true := by
  obtain ⟨htext, hhex⟩ | ⟨n, -, hwrite⟩ | ⟨found, hfind, hresolve⟩ := classify_eq_ok h
  · rw [htext]
    exact isFixed_expand hword hhex
  · rw [(readInt?_of_writeInt hwrite).1, expand_intText]
    exact isFixed_intText _
  · refine isFixed_resolve (fun home name defined hsymbol => ?_) hresolve
    exact hscope.madeOf.constant (hfind.trans (by rw [← hsymbol]))

/-- An integer that is the text can be read. -/
def isReadable (text : String) : Bool :=
  match readInt? text with
  | some (.error _) => false
  | _ => true

/-- What an operand becomes is fixed, and an integer that was made relative can be read. -/
theorem isFixed_of_resolveOperand {options : Options} {scope : Scope} {address : Int}
    {token : String} {c : Constraint} {r : Resolved} (hkeep : options.keepCalls = false)
    (hscope : scope.Spelled) (htoken : Line.IsToken token.toList)
    (h : resolveOperand options scope address token c = .ok r) :
    isFixed r.text = true ∧ (c.isRelative = true → isReadable r.text = true) := by
  obtain ⟨operand, relative, hclassify, hrelative, rfl⟩ := resolveOperand_eq_ok h
  have hfixed := isFixed_of_classify hscope (hscope.madeOf.lookedUp htoken c) hclassify
  simp only [hkeep, Bool.false_eq_true, if_false] at hrelative
  split at hrelative
  · obtain ⟨target, distance, -, hwrite, rfl⟩ | ⟨hread, rfl⟩ := relativeTo_eq_ok hrelative
    · obtain ⟨rfl, hread⟩ := readInt?_of_writeInt hwrite
      exact ⟨isFixed_intText _, fun _ => by simp [isReadable, hread]⟩
    · exact ⟨hfixed, fun _ => by simp [isReadable, hread]⟩
  · rename_i hc
    cases hrelative
    exact ⟨hfixed, fun hrel => absurd hrel hc⟩

/-! ## Lines of the output -/

/-- The words of a line, which are divided by spaces. -/
def wordsOf (line : String) : List String := (splitAtSep ' ' line.toList).map String.ofList

/-- The mnemonic of a line of output. -/
def mnemonicOf (line : String) : String := (wordsOf line).headD ""

/-- The operands of a line of output. -/
def operandsIn (line : String) : List String := (wordsOf line).tail

/-- The line is a mnemonic of the table with a fixed text at each of its places, and an integer at a
relative place can be read. -/
structure WellWritten (table : Table) (line : String) (signature : Signature) : Prop where
  text : line = " ".intercalate (mnemonicOf line :: operandsIn line)
  mnemonic : Line.isMnemonic (mnemonicOf line).toList = true
  lookup : table.lookup (mnemonicOf line) = some signature
  arity : signature.arity = (operandsIn line).length
  fixed : ∀ word ∈ operandsIn line, isFixed word = true
  readable : ∀ place ∈ (operandsIn line).zip signature.constraints,
    place.2.isRelative = true → isReadable place.1 = true

theorem wordsOf_intercalate {words : List String} (hne : words ≠ [])
    (h : ∀ word ∈ words, ' ' ∉ word.toList) : wordsOf (" ".intercalate words) = words := by
  have hsplit : splitAtSep ' ' (" ".intercalate words).toList = words.map String.toList := by
    rw [splitAtSep_eq_splitOn, String.toList_intercalate]
    refine List.splitOn_intercalate ' ' ?_ (by simpa using hne)
    intro chars hchars
    obtain ⟨word, hword, rfl⟩ := List.mem_map.1 hchars
    exact h word hword
  rw [wordsOf, hsplit, List.map_map]
  exact List.map_id'' (fun word => String.ofList_toList) words

theorem space_not_mem_of_isAtom {cs : List Char} (h : Line.isAtom cs = true) : ' ' ∉ cs :=
  fun hmem => absurd (Line.not_blank_of_isAtom h hmem) (by decide)

theorem scopeAt_spelled {source : String} {given : List String}
    (hvalid : (Reading.of source).valid = true) (k : Nat) :
    ((Reading.of source).scopeAt given k).Spelled :=
  fun _ hs => spelled_of_mem_chosen hvalid (List.mem_of_mem_take hs)

/-- What the places of an instruction become is fixed, place by place. -/
theorem isFixed_of_resolveOperands {options : Options} {scope : Scope} {address : Int}
    (hkeep : options.keepCalls = false) (hscope : scope.Spelled) :
    ∀ {tokens : List String} {cs : List Constraint} {resolved : List Resolved},
      (∀ token ∈ tokens, Line.IsToken token.toList) →
      resolveOperands options scope address (tokens.zip cs) = .ok resolved →
        (∀ word ∈ resolved.map Resolved.text, isFixed word = true) ∧
        ∀ place ∈ (resolved.map Resolved.text).zip cs,
          place.2.isRelative = true → isReadable place.1 = true
  | [], cs, resolved, _, h => by
      cases h
      simp
  | token :: tokens, [], resolved, _, h => by
      cases h
      simp
  | token :: tokens, c :: cs, resolved, htokens, h => by
      obtain ⟨r, hfirst, h⟩ := bind_eq_ok.1 h
      obtain ⟨rest, hrest, rfl⟩ := map_eq_ok.1 h
      obtain ⟨hfixed, hreadable⟩ :=
        isFixed_of_resolveOperand hkeep hscope (htokens token (List.mem_cons_self ..)) hfirst
      obtain ⟨hothers, hplaces⟩ := isFixed_of_resolveOperands hkeep hscope
        (fun other hother => htokens other (List.mem_cons_of_mem _ hother)) hrest
      rw [List.map_cons, List.zip_cons_cons]
      exact ⟨List.forall_mem_cons.2 ⟨hfixed, hothers⟩, List.forall_mem_cons.2 ⟨hreadable, hplaces⟩⟩

/-- A line of output without comments is well written. -/
theorem wellWritten_renderLine {table : Table} {options : Options} {scope : Scope} {address : Int}
    {l : Instruction} {signature : Signature} {resolved : List Resolved}
    (hkeep : options.keepCalls = false) (hcomments : options.comments = false)
    (hscope : scope.Spelled) (hl : l.Spelled) (hlookup : table.lookup l.opcode = some signature)
    (harity : signature.arity = l.operands.length)
    (hresolved : resolveOperands options scope address (l.operands.zip signature.constraints)
      = .ok resolved) :
    WellWritten table (renderLine options l (resolved.map Resolved.text)) signature := by
  obtain ⟨hfixed, hreadable⟩ := isFixed_of_resolveOperands hkeep hscope hl.operands hresolved
  have hline : renderLine options l (resolved.map Resolved.text) =
      " ".intercalate (l.opcode :: resolved.map Resolved.text) := by
    simp only [renderLine, hcomments]
  -- No word holds a space, so the line comes apart where it was put together.
  have hwords : wordsOf (renderLine options l (resolved.map Resolved.text)) =
      l.opcode :: resolved.map Resolved.text := by
    rw [hline]
    refine wordsOf_intercalate (List.cons_ne_nil _ _) (List.forall_mem_cons.2 ⟨?_, ?_⟩)
    · exact space_not_mem_of_isAtom (Line.isAtom_of_isMnemonic hl.opcode)
    · exact fun word hword => space_not_mem_of_isAtom (isAtom_of_isFixed (hfixed word hword))
  have hlength : resolved.length = l.operands.length := by
    rw [← (resolveOperands_forall₂ hresolved).length_eq, List.length_zip, ← Signature.arity, harity,
      Nat.min_self]
  constructor
  · rw [mnemonicOf, operandsIn, hwords]
    exact hline
  · rw [mnemonicOf, hwords]
    exact hl.opcode
  · rw [mnemonicOf, hwords]
    exact hlookup
  · rw [operandsIn, hwords, List.tail_cons, List.length_map, hlength, harity]
  · rw [operandsIn, hwords]
    exact hfixed
  · rw [operandsIn, hwords]
    exact hreadable

/-- Every line of output of a run without errors that expands calls and drops comments is well
written. -/
theorem wellWritten_of_mem_lines {source : String} {table : Table} {advisories : List Advisory}
    {options : Options} {a : Assembly} {line : String} (hkeep : options.keepCalls = false)
    (hcomments : options.comments = false)
    (hrun : ((Reading.of source).assemble table advisories options).result = .ok a)
    (hvalid : a.valid = true) (hline : line ∈ a.lines) :
    ∃ signature, WellWritten table line signature := by
  have hreading := Reading.valid_of_assemble hrun hvalid
  obtain ⟨outcomes, houtcomes, rfl⟩ := Reading.assemble_result hreading hrun
  obtain ⟨emission, hemission, rfl⟩ := List.mem_map.1 hline
  obtain ⟨n, hn⟩ := List.mem_iff_getElem?.1 hemission
  obtain ⟨k, p, s, l, hs, hl, rfl⟩ := instruction_of_emitted houtcomes hn
  obtain ⟨signature, resolved, hlookup, harity, hresolved, hemitted⟩ :=
    emitted_at houtcomes (no_problems_of_valid hvalid) hs hl
  rw [hn] at hemitted
  cases hemitted
  have hspelled := (spelled_of_mem_chosen hreading (List.mem_of_getElem? hs)).lines l
    (List.mem_of_getElem? hl)
  exact ⟨signature, wellWritten_renderLine hkeep hcomments (scopeAt_spelled hreading k) hspelled
    hlookup harity hresolved⟩

end ChipAsm
