import ChipAsm.Proofs.Binding

/-!
# Operands that are kept

At some places of an instruction nothing is looked up: the operand is taken as it is written.  Two
steps change it all the same.  A hexadecimal numeral is written in decimals, and a call is replaced by
its number if the run expands calls.  Any other token is left (`keptAs_eq_self_iff`).

The name and the pin of an alias that is kept in the output stand at such places.  A pin is always
left.  A name may be any token, so the line of the alias has both as they are written if and only if
the name is left (`kept_verbatim_iff`).
-/

namespace ChipAsm

open ChipAsm.Text ChipAsm.Number ChipAsm.Token ChipAsm.Line

/-! ## Tokens -/

/-- What a token becomes where nothing is looked up. -/
def keptAs (options : Options) (token : String) : String :=
  match Shape.of token with
  | .hex n => intText n
  | .call => if options.keepCalls then token else expand token
  | _ => token

/-- The token is no hexadecimal numeral, and no call that is expanded. -/
def isLeft (options : Options) (token : String) : Bool :=
  match Shape.of token with
  | .hex _ => false
  | .call => options.keepCalls
  | _ => true

theorem isNumber_of_shape {token : String} {shape : Shape} (h : Shape.of token = shape)
    (hshape : shape ≠ .number) : isNumber token = false := by
  rw [← Bool.not_eq_true]
  intro hnumber
  rw [Shape.of, if_pos hnumber] at h
  exact hshape h.symm

/-- A token is kept as it is written if and only if it is left. -/
theorem keptAs_eq_self_iff (options : Options) (token : String) :
    keptAs options token = token ↔ isLeft options token = true := by
  rw [keptAs, isLeft]
  have htells := shape_tells token
  cases hshape : Shape.of token with
  | number | device | register | word => simp
  | hex n =>
      -- what is written instead is a decimal numeral, and the token is none
      simp only [Bool.false_eq_true, iff_false]
      intro heq
      have hdecimal := isNumber_intText (n : Int)
      rw [heq, isNumber_of_shape hshape (by simp)] at hdecimal
      cases hdecimal
  | call =>
      rw [hshape] at htells
      cases options.keepCalls with
      | true => simp
      | false =>
          simp only [Bool.false_eq_true, if_false, iff_false]
          intro heq
          have hdecimal := isNumber_expand_of_isCall htells
          rw [heq, isNumber_of_shape hshape (by simp)] at hdecimal
          cases hdecimal

theorem head?_chomp {cs : List Char} (h : chomp cs ≠ []) : (chomp cs).head? = cs.head? := by
  fun_cases chomp cs with
  | case1 => rfl
  | case2 => exact absurd rfl h
  | case3 c cs => rfl

theorem isCall_of_isDevice {token : String} (h : isDevice token = true) : isCall token = false := by
  obtain ⟨rest, hchomp⟩ := head_of_isDevice h
  have hhead : token.toList.head? = some 'd' := by
    rw [← head?_chomp (by rw [hchomp]; simp), hchomp, List.head?_cons]
  rw [← Bool.not_eq_true]
  intro hcall
  rw [isCall, Call.read?] at hcall
  cases hsplit : Call.split? token.toList with
  | none =>
      rw [hsplit] at hcall
      cases hcall
  | some found =>
      obtain ⟨call, behind⟩ := found
      obtain ⟨tail, hkeyword⟩ := splitKeyword?_of_split? hsplit
      obtain ⟨c, more, hcall, hstart⟩ := isKeywordStart_of_splitKeyword? hkeyword
      rw [← Call.split?_append hsplit, Call.chars, hcall] at hhead
      cases hhead
      exact absurd hstart (by decide)

theorem shape_of_isDevice {token : String} (h : isDevice token = true) :
    Shape.of token = .device := by
  simp [Shape.of, isNumber_of_isDevice h, isCall_of_isDevice h, h]

/-- Where nothing is looked up, an operand becomes what its token is kept as. -/
theorem resolveOperand_keptAs {options : Options} {scope : Scope} {address : Int} {token : String}
    {c : Constraint} {r : Resolved} (hsubstitutes : c.substitutes = false)
    (hrelative : c.isRelative = false)
    (h : resolveOperand options scope address token c = .ok r) : r.text = keptAs options token := by
  obtain ⟨operand, relative, hoperand, hrel, rfl⟩ := resolveOperand_eq_ok h
  simp only [hrelative, Bool.false_eq_true, if_false, Except.ok.injEq] at hrel
  subst hrel
  simp only [Scope.lookedUp, hsubstitutes, Bool.false_eq_true, if_false] at hoperand
  have htells := shape_tells token
  rw [Operand.classify] at hoperand
  rw [keptAs]
  cases hshape : Shape.of token with
  | number =>
      rw [hshape] at hoperand htells
      cases hoperand
      simp only [expand_of_isNumber htells, ite_self]
  | call =>
      rw [hshape] at hoperand
      cases hoperand
      rfl
  | device | register =>
      rw [hshape] at hoperand htells
      cases hoperand
      simp only [expand_of_isCall_eq_false htells.1, ite_self]
  | hex n =>
      rw [hshape] at hoperand
      obtain ⟨text, hwrite, rfl⟩ := map_eq_ok.1 hoperand
      obtain ⟨rfl, -⟩ := readInt?_of_writeInt hwrite
      simp only [expand_intText, ite_self]
  | word =>
      rw [hshape] at hoperand htells
      have htext : operand.text = token := by
        simp only [Operand.ofWord] at hoperand
        split at hoperand
        · cases hoperand
          rfl
        · cases hoperand
          rfl
      simp only [htext, expand_of_isCall_eq_false htells.2, ite_self]

/-! ## The lines of aliases -/

theorem Statement.eq_binding_of_alias? {statement : Statement} {name target : String}
    (h : statement.alias? = some (name, target)) : statement = .binding name target := by
  cases statement with
  | binding bound target' =>
      cases h
      rfl
  | constant | opening | code | faulty => cases h

/-- A directive that binds a name to a device pin is kept as an instruction. -/
theorem instruction?_of_target? {x : SourceLine} {name pin : String} (h : x.target? name = some pin)
    (hpin : isDevice pin = true) (position : Nat) :
    x.instruction? position = some ⟨"alias", [name, pin], x.number, position, x.line.comment⟩ := by
  rw [target?_eq] at h
  obtain ⟨⟨bound, target⟩, halias, htarget⟩ := Option.bind_eq_some_iff.1 h
  rw [targetOf] at htarget
  split at htarget
  · rename_i hbound
    cases htarget
    rw [SourceLine.instruction?, Statement.eq_binding_of_alias? halias, Statement.instruction?,
      if_pos hpin, ← hbound]
    rfl
  · cases htarget

theorem mem_instructionsFrom {x : SourceLine} {ls : List SourceLine}
    {instruction : Nat → Instruction} (hx : x ∈ ls)
    (h : ∀ position, x.instruction? position = some (instruction position)) :
    ∀ position, ∃ p, instruction p ∈ instructionsFrom position ls := by
  induction ls with
  | nil => cases hx
  | cons l ls ih =>
      intro position
      rw [instructionsFrom]
      rcases List.mem_cons.1 hx with rfl | hx
      · rw [h position]
        exact ⟨position, List.mem_cons_self ..⟩
      · cases l.instruction? position with
        | none => exact ih hx position
        | some first =>
            obtain ⟨p, hp⟩ := ih hx (position + 1)
            exact ⟨p, List.mem_cons_of_mem _ hp⟩

/-- The line of an alias with the given operands, and with its comment if that is asked for. -/
def aliasText (options : Options) (name pin : String) (comment : Option String) : String :=
  "alias " ++ name ++ " " ++ pin ++
    if options.comments then (comment.map (" # " ++ ·)).getD "" else ""

theorem renderLine_alias (options : Options) (l : Instruction) (name pin : String)
    (h : l.opcode = "alias") :
    renderLine options l [name, pin] = aliasText options name pin l.comment := by
  have hwords : " ".intercalate ["alias", name, pin] = "alias " ++ name ++ " " ++ pin := rfl
  rw [renderLine, aliasText, h, hwords]
  cases options.comments with
  | false => exact (String.append_empty).symm
  | true =>
      cases l.comment with
      | none => exact (String.append_empty).symm
      | some comment => simp [String.append_assoc]

theorem aliasText_inj {options : Options} {name name' pin : String} {comment : Option String} :
    aliasText options name pin comment = aliasText options name' pin comment ↔ name = name' := by
  simp [aliasText, String.append_assoc]

/-- The alias of a source line is kept: one line of output is emitted for it, which has the pin as it
is written, and has the name so if and only if the name is left. -/
def Reading.KeepsAlias (reading : Reading) (options : Options) (a : Assembly) (x : SourceLine)
    (name pin : String) : Prop :=
  ∃ n l texts, reading.Emits .standard options n l texts ∧ l.sourceLine = x.number ∧
    (∀ m l' texts', reading.Emits .standard options m l' texts' → l'.sourceLine = x.number →
      m = n) ∧
    a.lines[n]? = some (aliasText options (keptAs options name) pin x.line.comment) ∧
    (a.lines[n]? = some (aliasText options name pin x.line.comment) ↔ isLeft options name = true)

section Kept

variable {source : String} {options : Options}

/-- An operand of a line of output where nothing is looked up. -/
theorem text_of_kept {table : Table} {n i : Nat} {l : Instruction} {texts : List String}
    {signature : Signature} {token : String} {c : Constraint}
    (h : (Reading.of source).Emits table options n l texts)
    (hlookup : table.lookup l.opcode = some signature) (htoken : l.operands[i]? = some token)
    (hc : signature.constraints[i]? = some c) (hsubstitutes : c.substitutes = false)
    (hrelative : c.isRelative = false) : texts[i]? = some (keptAs options token) := by
  obtain ⟨k, s, r, -, -, hresolve, htext⟩ := h.operand hlookup htoken hc
  rw [htext, resolveOperand_keptAs hsubstitutes hrelative hresolve]

theorem lookup_alias :
    Table.standard.lookup "alias" =
      some ⟨"alias", [InstructionSet.aliasName, InstructionSet.aliasPin]⟩ := by
  decide +kernel

theorem keepsAlias_of_assemble {advisories : List Advisory} {a : Assembly} {b : Body}
    {x : SourceLine} {name pin : String} (hvalid : (Reading.of source).valid = true)
    (hrun : ((Reading.of source).assemble .standard advisories options).result = .ok a)
    (hb : b ∈ bodiesTaken source options.sections) (hx : x ∈ b.lines)
    (htarget : x.target? name = some pin) (hpin : isDevice pin = true) :
    (Reading.of source).KeepsAlias options a x name pin := by
  obtain ⟨k, hk⟩ := List.mem_iff_getElem?.1 hb
  have hs := @chosen_getElem?_bodiesTaken source options.sections hvalid k
  rw [hk, Option.map_some] at hs
  obtain ⟨p, hl⟩ := mem_instructionsFrom hx (instruction?_of_target? htarget hpin) 0
  obtain ⟨n, texts, hemits, hlength, hline⟩ := emits_of_mem_chosen hvalid hrun
    (List.mem_of_getElem? hs) hl (Table.fits_iff.2 ⟨_, lookup_alias, rfl⟩)
  have hname := text_of_kept (i := 0) hemits lookup_alias rfl rfl (by decide) (by decide)
  have hkept := text_of_kept (i := 1) hemits lookup_alias rfl rfl (by decide) (by decide)
  have hleft : keptAs options pin = pin := by rw [keptAs, shape_of_isDevice hpin]
  have htexts : texts = [keptAs options name, pin] := by
    obtain ⟨first, second, rfl⟩ := List.length_eq_two.1 hlength
    rw [hleft] at hkept
    cases hname
    cases hkept
    rfl
  rw [htexts, renderLine_alias options _ _ _ rfl] at hline
  refine ⟨n, _, texts, hemits, rfl, fun m l' texts' hemits' hnumber =>
    hemits'.index_eq hemits hnumber, hline, ?_⟩
  rw [hline, Option.some.injEq, aliasText_inj, keptAs_eq_self_iff]

/-- Where nothing is looked up, the operands of a line of output are as they are written if and only
if they are left; so is the line of an alias of a device, whose pin is always left. -/
theorem kept_verbatim_iff (advisories : List Advisory) (options : Options)
    (hvalid : (Reading.of source).valid = true) :
    (∀ (table : Table) (n i : Nat) (l : Instruction) (texts : List String) (signature : Signature)
      (token : String) (c : Constraint), (Reading.of source).Emits table options n l texts →
      table.lookup l.opcode = some signature → l.operands[i]? = some token →
      signature.constraints[i]? = some c → c.substitutes = false → c.isRelative = false →
        texts[i]? = some (keptAs options token) ∧
          (texts[i]? = some token ↔ isLeft options token = true)) ∧
    ((∃ a, ((Reading.of source).assemble .standard advisories options).result = .ok a ∧
        ∀ b ∈ bodiesTaken source options.sections, ∀ x ∈ b.lines, ∀ name pin,
          x.target? name = some pin → isDevice pin = true →
            (Reading.of source).KeepsAlias options a x name pin) ∨
      ∃ fault, ((Reading.of source).assemble .standard advisories options).result = .error fault ∧
        (Reading.of source).Faults .standard options fault) := by
  constructor
  · intro table n i l texts signature token c hemits hlookup htoken hc hsubstitutes hrelative
    have htext := text_of_kept hemits hlookup htoken hc hsubstitutes hrelative
    refine ⟨htext, ?_⟩
    rw [htext, Option.some.injEq, keptAs_eq_self_iff]
  · cases hrun : ((Reading.of source).assemble .standard advisories options).result with
    | ok a =>
        exact .inl ⟨a, rfl, fun b hb x hx name pin htarget hpin =>
          keepsAlias_of_assemble hvalid hrun hb hx htarget hpin⟩
    | error fault => exact .inr ⟨fault, rfl, stops_at_operand hvalid hrun⟩

end Kept

/-- The name is a call, and there is a comment. -/
def aliasedCall : String := "alias HASH(\"x\") d0 # gas"

/-- Where calls and comments are kept, the line is as it is written. -/
theorem kept_verbatim_iff_aliasedCall :
    (Reading.of aliasedCall).valid = true ∧
    ∃ a, ((Reading.of aliasedCall).assemble .standard [] ⟨[], true, true⟩).result = .ok a ∧
      a.lines = ["alias HASH(\"x\") d0 # gas"] ∧
      (Reading.of aliasedCall).KeepsAlias ⟨[], true, true⟩ a
        ⟨0, .directive "alias", ["HASH(\"x\")", "d0"], some "gas"⟩ "HASH(\"x\")" "d0" := by
  have hvalid : (Reading.of aliasedCall).valid = true := by decide +kernel
  have hbodies : bodiesTaken aliasedCall [] =
      [⟨"(default)", 0, [], [⟨0, .directive "alias", ["HASH(\"x\")", "d0"], some "gas"⟩]⟩] := by
    decide +kernel
  have hlines : ((Reading.of aliasedCall).assemble .standard [] ⟨[], true, true⟩).result.map
      Assembly.lines = .ok ["alias HASH(\"x\") d0 # gas"] := by
    decide +kernel
  obtain ⟨a, hrun, ha⟩ := map_eq_ok.1 hlines
  obtain ⟨-, ⟨a', hrun', hkeeps⟩ | ⟨fault, hstopped, -⟩⟩ :=
    kept_verbatim_iff [] ⟨[], true, true⟩ hvalid
  · cases hrun.symm.trans hrun'
    refine ⟨hvalid, a, hrun, ha, hkeeps _ (hbodies ▸ List.mem_singleton_self _) _
      (List.mem_singleton_self _) _ _ ?_ ?_⟩
    · decide +kernel
    · decide +kernel
  · cases hrun.symm.trans hstopped

/-- A hexadecimal name is written in decimals. -/
theorem hex_name_rewritten :
    (Reading.of "alias 0xFF d0").valid = true ∧
    ((Reading.of "alias 0xFF d0").assemble .standard [] {}).result.map Assembly.lines =
      .ok ["alias 255 d0"] := by
  constructor
  · decide +kernel
  · decide +kernel

end ChipAsm
