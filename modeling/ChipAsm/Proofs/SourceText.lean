import Mathlib.Data.List.TakeWhile
import ChipAsm.Proofs.Reading

/-!
# The text of a source

A source is divided into lines at its line feeds, and lines that hold none can be put together again.
The blanks at the ends of a line do not matter.  A line with nothing but blanks or a comment is idle:
it changes nothing but the number of the next line (`Reader.step_of_isIdle`).
-/

namespace ChipAsm

open ChipAsm.Text ChipAsm.Token

/-! ## Dividing and joining -/

namespace Text

/-- Dividing a text at a character is the division of the list of its characters. -/
theorem splitAtSep_eq_splitOn (sep : Char) (cs : List Char) :
    splitAtSep sep cs = cs.splitOn sep := by
  induction cs with
  | nil => rfl
  | cons c cs ih =>
      have hcons := List.splitOnP_cons_eq_if_modifyHead (p := (· == sep)) c cs
      rw [splitAtSep, List.foldr_cons, ← splitAtSep, ih, List.splitOn, List.splitOn, hcons]
      cases hpieces : List.splitOnP (· == sep) cs with
      | nil => exact absurd (ih.trans hpieces) (splitAtSep_ne_nil sep cs)
      | cons piece pieces => simp [pushPiece]

/-- The pieces of a text do not hold the character that it is divided at. -/
theorem not_mem_of_mem_splitAtSep {sep : Char} {cs piece : List Char}
    (h : piece ∈ splitAtSep sep cs) : sep ∉ piece := by
  induction cs generalizing piece with
  | nil =>
      rw [List.mem_singleton.1 h]
      exact List.not_mem_nil
  | cons c cs ih =>
      rw [splitAtSep, List.foldr_cons, ← splitAtSep] at h
      cases hpieces : splitAtSep sep cs with
      | nil => exact absurd hpieces (splitAtSep_ne_nil sep cs)
      | cons first pieces =>
          rw [hpieces] at h ih
          rw [pushPiece] at h
          split at h
          · rcases List.mem_cons.1 h with rfl | h
            · exact List.not_mem_nil
            · exact ih h
          · rename_i hc
            rcases List.mem_cons.1 h with rfl | h
            · intro hmem
              rcases List.mem_cons.1 hmem with rfl | hmem
              · exact hc rfl
              · exact ih (List.mem_cons_self ..) hmem
            · exact ih (List.mem_cons_of_mem _ h)

/-- Texts that are joined by a line feed have the lines of the one and then those of the other. -/
theorem linesOf_append (source more : String) :
    linesOf (source ++ "\n" ++ more) = linesOf source ++ linesOf more := by
  have hchars : (source ++ "\n" ++ more).toList = source.toList ++ '\n' :: more.toList := by simp
  simp only [linesOf, splitAtSep_eq_splitOn, hchars]
  exact List.splitOnP_append_cons _ _ (by decide)

/-- Lines that hold no line feed can be read back from the text that they are joined to. -/
theorem linesOf_joinLines {lines : List String} (hne : lines ≠ [])
    (h : ∀ line ∈ lines, '\n' ∉ line.toList) :
    linesOf (joinLines lines) = lines.map String.toList := by
  rw [linesOf, splitAtSep_eq_splitOn, joinLines, String.toList_intercalate]
  refine List.splitOn_intercalate '\n' ?_ (by simpa using hne)
  intro chars hchars
  obtain ⟨line, hline, rfl⟩ := List.mem_map.1 hchars
  exact h line hline

end Text

/-! ## Blanks at the ends -/

theorem dropBlanks_append_of_blank {left rest : List Char} (h : ∀ c ∈ left, isBlank c = true) :
    dropBlanks (left ++ rest) = dropBlanks rest :=
  List.dropWhile_append_of_pos h

theorem dropBlanksEnd_append_of_blank {front right : List Char}
    (h : ∀ c ∈ right, isBlank c = true) : dropBlanksEnd (front ++ right) = dropBlanksEnd front := by
  rw [dropBlanksEnd, List.reverse_append, dropBlanks_append_of_blank, dropBlanksEnd]
  exact fun c hc => h c (List.mem_reverse.1 hc)

/-- Blanks behind a text are stripped, also if it has nothing but blanks itself. -/
theorem stripChars_append_of_blank {core right : List Char} (h : ∀ c ∈ right, isBlank c = true) :
    stripChars (core ++ right) = stripChars core := by
  rw [stripChars, stripChars]
  cases hcore : dropBlanks core with
  | nil =>
      have hblank : ∀ c ∈ core, isBlank c = true := List.dropWhile_eq_nil_iff.1 hcore
      rw [dropBlanks_append_of_blank hblank, dropBlanks, List.dropWhile_eq_nil_iff.2 h]
  | cons c rest =>
      have hdrop : dropBlanks (core ++ right) = dropBlanks core ++ right := by
        rw [dropBlanks, List.dropWhile_append, ← dropBlanks, hcore]
        rfl
      rw [hdrop, dropBlanksEnd_append_of_blank h, hcore]

/-! ## Idle lines -/

/-- The line has nothing but blanks, or nothing but a comment. -/
def isIdle (text : List Char) : Bool :=
  match dropBlanks text with
  | [] => true
  | c :: _ => Line.isCommentMark c

/-- A character that is no blank stays, and what is kept behind it is the front of what stood there.
-/
theorem dropBlanksEnd_cons_of_not_blank {c : Char} (h : isBlank c = false) (cs : List Char) :
    ∃ rest, dropBlanksEnd (c :: cs) = c :: rest ∧ rest <+: cs := by
  have hend : dropBlanks [c] = [c] := by simp [dropBlanks, h]
  rw [dropBlanksEnd, List.reverse_cons, dropBlanks, List.dropWhile_append, ← dropBlanks,
    ← dropBlanks, hend]
  split
  · exact ⟨[], rfl, List.nil_prefix⟩
  · exact ⟨dropBlanksEnd cs, by simp [dropBlanksEnd], dropBlanksEnd_prefix cs⟩

namespace Line

/-- A comment is no directive. -/
theorem not_folded_of_mark {mark : Char} (h : isCommentMark mark = true) (rest : List Char) :
    directive? (mark :: rest) = none := by
  simp only [isCommentMark, Bool.or_eq_true, beq_iff_eq] at h
  rcases h with rfl | rfl
  · rfl
  · rfl

/-- A comment makes a line that says nothing. -/
theorem ofChars?_of_mark {mark : Char} {rest : List Char} (h : isCommentMark mark = true)
    (hrest : '\n' ∉ rest) :
    ∃ comment, ofChars? (mark :: rest) = some ⟨.code none none, [], comment⟩ := by
  have hdirective := not_folded_of_mark h rest
  have hblank : isBlank mark = false ∧ isLabelStart mark = false ∧ mark.isAlpha = false := by
    simp only [isCommentMark, Bool.or_eq_true, beq_iff_eq] at h
    rcases h with rfl | rfl <;> decide
  have hlabel : labelled? (mark :: rest) = none := by
    simp [labelled?, splitLabel?, hblank.2.1]
  have hcomment : (dropBlanks rest).dropWhile (· != '\n') = [] := by
    rw [List.dropWhile_eq_nil_iff]
    intro c hc
    have hmem : c ∈ rest := (List.dropWhile_suffix isBlank).subset hc
    simp only [bne_iff_ne]
    rintro rfl
    exact hrest hmem
  have hcode : code? none (mark :: rest) =
      some ⟨.code none none, [], nonempty? ((dropBlanks rest).takeWhile (· != '\n'))⟩ := by
    have hopcode : splitOpcode (mark :: rest) = (none, mark :: rest) := by
      simp [splitOpcode, hblank.2.2]
    have hending : ending? (mark :: rest) = some ((dropBlanks rest).takeWhile (· != '\n')) := by
      have hend : isEnd [] = true := rfl
      simp [ending?, dropBlanks_cons_of_not_blank hblank.1, h, commentOf?, hcomment, hend]
    simp [code?_eq, hopcode, withOperands?,
      operandsOf_cons_of_not_gap (not_gap_of_not_blank hblank.1), hending]
  refine ⟨nonempty? ((dropBlanks rest).takeWhile (· != '\n')), ?_⟩
  simp [ofChars?, dropBlanks_cons_of_not_blank hblank.1, hdirective, hlabel, hcode]

end Line

/-- An idle line changes nothing but the number of the next line. -/
theorem Reader.step_of_isIdle {r : Reader} {text : List Char} (h : isIdle text = true)
    (hline : '\n' ∉ text) : r.step text = { r with line := r.line + 1 } := by
  have hmem : ∀ {c}, c ∈ dropBlanks text → c ∈ text := fun hc =>
    (List.dropWhile_suffix isBlank).subset hc
  rw [isIdle] at h
  rw [step, stripChars]
  cases htext : dropBlanks text with
  | nil => rfl
  | cons mark cs =>
      simp only [htext] at h
      obtain ⟨rest, hstrip, hfront⟩ :=
        dropBlanksEnd_cons_of_not_blank (not_blank_of_dropBlanks htext) cs
      have hrest : '\n' ∉ rest := fun hc =>
        hline (hmem (htext ▸ List.mem_cons_of_mem _ (hfront.subset hc)))
      obtain ⟨comment, hread⟩ := Line.ofChars?_of_mark h hrest
      simp only [hstrip, takeText, hread]
      rfl

/-! ## The number of the next line -/

/-- The reader in front of the line with the number `n`. -/
def Reader.atLine (r : Reader) (n : Nat) : Reader := { r with line := n }

namespace Reader

/-- Only the step to the next line counts lines, not what is done with a line. -/
theorem takeText_line (r : Reader) (cs : List Char) : (r.takeText cs).line = r.line := by
  unfold takeText
  split
  · rfl
  · split
    · rename_i line _
      cases hopening : line.statement.opening? with
      | none =>
          rw [(take_absorbs hopening).eq]
          rfl
      | some opened =>
          obtain ⟨d, -, htake⟩ := take_opening (r := r) hopening
          rw [htake]
          exact close_line r
    · rfl

theorem step_eq (r : Reader) (text : List Char) :
    r.step text = (r.takeText (stripChars text)).atLine (r.line + 1) := by
  rw [step, takeText_line]
  rfl

/-- What has been read does not depend on the number of the next line. -/
theorem reading_close_atLine (r : Reader) (n : Nat) :
    (r.atLine n).close.reading = r.close.reading := by
  unfold close
  rw [show (r.atLine n).current = r.current from rfl,
    show (r.atLine n).declared = r.declared from rfl]
  split
  · split <;> rfl
  · rfl

end Reader

end ChipAsm
