import ChipAsm.Proofs.Address
import ChipAsm.Proofs.Contents
import ChipAsm.Proofs.Ownership

/-!
# Where operands come from

A section holds operands in three places: in its instructions, as the targets of its aliases, and as
the values of its constants.  All of them are operands of lines of the source.  So what holds of every
operand of a source holds of every operand that its sections hold (`madeOf_of_mem_chosen`), and of all
that a token is replaced by (`Scope.MadeOf.lookedUp`, `Scope.MadeOf.constant`).
-/

namespace ChipAsm

open ChipAsm.Text ChipAsm.Token

/-! ## Lines -/

/-- A line that binds an alias has its name and its target as operands, and no others. -/
theorem operands_of_alias? {line : Line} {name target : String}
    (h : line.statement.alias? = some (name, target)) : line.operands = [name, target] := by
  obtain ⟨head, operands, comment⟩ := line
  cases head with
  | code label opcode => cases h
  | directive word =>
      simp only [Line.statement, Statement.ofDirective] at h
      repeat' split at h
      all_goals cases h
      rfl

/-- A line that defines a constant has its name and its value as operands, and no others. -/
theorem operands_of_constant {line : Line} {home home' position : Nat} {name text : String}
    (h : line.statement.symbol? home position = some (.constant home' name text)) :
    line.operands = [name, text] := by
  obtain ⟨head, operands, comment⟩ := line
  cases head with
  | code label opcode => cases label <;> cases h
  | directive word =>
      simp only [Line.statement, Statement.ofDirective] at h
      repeat' split at h
      all_goals cases h
      rfl

/-- An instruction has the operands of its line, also if it is an alias that is kept. -/
theorem operands_of_instruction? {l : SourceLine} {position : Nat} {x : Instruction}
    (h : l.instruction? position = some x) : x.operands = l.line.operands := by
  obtain ⟨number, head, operands, comment⟩ := l
  obtain ⟨⟨opcode, given⟩, hgiven, rfl⟩ := Option.map_eq_some_iff.1 h
  cases head with
  | code label opcode' =>
      cases opcode' with
      | none => cases hgiven
      | some opcode' =>
          cases hgiven
          rfl
  | directive word =>
      simp only [Line.statement, Statement.instruction?_ofDirective] at hgiven
      split at hgiven
      · split at hgiven
        · cases hgiven
          rfl
        · cases hgiven
      · cases hgiven

theorem comment_of_instruction? {l : SourceLine} {position : Nat} {x : Instruction}
    (h : l.instruction? position = some x) : x.comment = l.line.comment := by
  obtain ⟨_, -, rfl⟩ := Option.map_eq_some_iff.1 h
  rfl

/-- An instruction of a body is that of one of its lines. -/
theorem exists_of_mem_instructionsFrom (ls : List SourceLine) :
    ∀ {position : Nat} {x : Instruction}, x ∈ instructionsFrom position ls →
      ∃ l ∈ ls, ∃ p, l.instruction? p = some x := by
  induction ls with
  | nil =>
      intro position x hx
      cases hx
  | cons l ls ih =>
      intro position x hx
      rw [instructionsFrom] at hx
      cases hl : l.instruction? position with
      | none =>
          rw [hl] at hx
          obtain ⟨l', hl', hp⟩ := ih hx
          exact ⟨l', List.mem_cons_of_mem _ hl', hp⟩
      | some y =>
          rw [hl] at hx
          rcases List.mem_cons.1 hx with rfl | hx
          · exact ⟨l, List.mem_cons_self .., position, hl⟩
          · obtain ⟨l', hl', hp⟩ := ih hx
            exact ⟨l', List.mem_cons_of_mem _ hl', hp⟩

theorem exists_of_mem_definitionsFrom {home : Nat} (ls : List SourceLine) :
    ∀ {position : Nat} {d : Symbol}, d ∈ definitionsFrom home position ls →
      ∃ l ∈ ls, ∃ p, l.line.statement.symbol? home p = some d := by
  intro position d hd
  obtain ⟨defined, others, hsplit⟩ := List.append_of_mem hd
  obtain ⟨before, l, after, rfl, hl, -⟩ := line_of_definitionsFrom ls hsplit
  exact ⟨l, by simp, _, hl⟩

theorem mem_bindKey {key value : String} {bound : List (String × String)} {pair : String × String}
    (h : pair ∈ bindKey key value bound) : pair = (key, value) ∨ pair ∈ bound := by
  induction bound with
  | nil => exact .inl (List.mem_singleton.1 h)
  | cons first bound ih =>
      rw [bindKey] at h
      split at h
      · exact (List.mem_cons.1 h).imp_right (List.mem_cons_of_mem _)
      · rcases List.mem_cons.1 h with rfl | h
        · exact .inr (List.mem_cons_self ..)
        · exact (ih h).imp_right (List.mem_cons_of_mem _)

/-- Binding names brings no pairs but those that were bound. -/
theorem mem_foldl_bindKey (pairs : List (String × String)) :
    ∀ {bound : List (String × String)} {pair : String × String},
      pair ∈ pairs.foldl (fun bound pair => bindKey pair.1 pair.2 bound) bound →
        pair ∈ bound ∨ pair ∈ pairs := by
  induction pairs with
  | nil => exact fun h => .inl h
  | cons first pairs ih =>
      intro bound pair h
      rcases ih h with h | h
      · rcases mem_bindKey h with rfl | h
        · exact .inr (List.mem_cons_self ..)
        · exact .inl h
      · exact .inr (List.mem_cons_of_mem _ h)

theorem mem_sourceLines_of_mem_bodies {source : String} {b : Body} {l : SourceLine}
    (hb : b ∈ bodies source) (hl : l ∈ b.lines) : l ∈ sourceLines source := by
  have hmem := (bodiesFrom_lines (sourceLines source) {}).subset (List.mem_flatMap.2 ⟨b, hb, hl⟩)
  rwa [List.nil_append] at hmem

/-! ## Sections -/

/-- `P` holds of every operand that the section holds. -/
structure Section.MadeOf (P : String → Prop) (s : Section) : Prop where
  lines : ∀ x ∈ s.lines, ∀ token ∈ x.operands, P token
  aliases : ∀ pair ∈ s.aliases, P pair.2
  constants : ∀ home name text, .constant home name text ∈ s.symbols → P text

section Chosen

variable {source : String} {given : List String} {s : Section}

/-- An instruction of a run is that of a line of the source. -/
theorem sourceLine_of_mem_chosen {x : Instruction} (hvalid : (Reading.of source).valid = true)
    (h : s ∈ (Reading.of source).chosen given) (hx : x ∈ s.lines) :
    ∃ l ∈ sourceLines source, ∃ position, l.instruction? position = some x := by
  obtain ⟨k, hk⟩ := List.mem_iff_getElem?.1 h
  obtain ⟨b, hb, hs⟩ := chosen_body hvalid hk
  rw [hs] at hx
  obtain ⟨l, hl, position, hx⟩ := exists_of_mem_instructionsFrom b.lines hx
  exact ⟨l, mem_sourceLines_of_mem_bodies hb hl, position, hx⟩

/-- What holds of every operand of a source holds of every operand of its sections. -/
theorem madeOf_of_mem_chosen {P : String → Prop} (hvalid : (Reading.of source).valid = true)
    (hP : ∀ l ∈ sourceLines source, ∀ token ∈ l.line.operands, P token)
    (h : s ∈ (Reading.of source).chosen given) : s.MadeOf P := by
  obtain ⟨k, hk⟩ := List.mem_iff_getElem?.1 h
  obtain ⟨b, hb, hs⟩ := chosen_body hvalid hk
  constructor
  · intro x hx
    obtain ⟨l, hl, position, hx⟩ := sourceLine_of_mem_chosen hvalid h hx
    rw [operands_of_instruction? hx]
    exact hP l hl
  · rintro ⟨name, target⟩ hpair
    rw [hs] at hpair
    rcases mem_foldl_bindKey _ hpair with hnone | hpair
    · cases hnone
    · obtain ⟨l, hl, halias⟩ := List.mem_filterMap.1 hpair
      exact hP l (mem_sourceLines_of_mem_bodies hb hl) target (by simp [operands_of_alias? halias])
  · intro home name value hsymbol
    rw [hs] at hsymbol
    obtain ⟨l, hl, position, hsymbol⟩ := exists_of_mem_definitionsFrom b.lines hsymbol
    exact hP l (mem_sourceLines_of_mem_bodies hb hl) value (by simp [operands_of_constant hsymbol])

end Chosen

/-! ## Scopes -/

/-- `P` holds of every operand that the visible sections hold. -/
def Scope.MadeOf (P : String → Prop) (scope : Scope) : Prop := ∀ s ∈ scope.visible, s.MadeOf P

namespace Scope.MadeOf

variable {P : String → Prop} {scope : Scope} {token : String}

theorem unalias (h : scope.MadeOf P) (htoken : P token) : P (scope.unalias token) := by
  rw [Scope.unalias]
  cases hfound : scope.visible.findSome? fun s => s.alias? token with
  | none => exact htoken
  | some target =>
      obtain ⟨s, hs, halias⟩ := List.exists_of_findSome?_eq_some hfound
      obtain ⟨pair, hpair, rfl⟩ := Option.map_eq_some_iff.1 halias
      exact (h s hs).aliases pair (List.mem_of_find?_eq_some hpair)

/-- The word that a token stands for is the token itself, or the target of an alias. -/
theorem lookedUp (h : scope.MadeOf P) (htoken : P token) (c : Constraint) :
    P (scope.lookedUp token c) := by
  rw [Scope.lookedUp]
  split
  · exact h.unalias htoken
  · exact htoken

theorem constant (h : scope.MadeOf P) {home : Nat} {word name text : String} {offset : Int}
    (hfind : scope.find? word = some ⟨.constant home name text, offset⟩) : P text := by
  obtain ⟨s, hs, hsymbol, -⟩ := exists_of_find? hfind
  exact (h s hs).constants home name text (List.mem_of_find?_eq_some hsymbol)

end Scope.MadeOf

/-- What holds of every operand of a source holds of all that an instruction sees. -/
theorem scopeAt_madeOf {P : String → Prop} {source : String} {given : List String}
    (hvalid : (Reading.of source).valid = true)
    (hP : ∀ l ∈ sourceLines source, ∀ token ∈ l.line.operands, P token) (k : Nat) :
    ((Reading.of source).scopeAt given k).MadeOf P :=
  fun _ hs => madeOf_of_mem_chosen hvalid hP (List.mem_of_mem_take hs)

end ChipAsm
