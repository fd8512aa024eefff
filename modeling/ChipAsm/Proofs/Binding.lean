import ChipAsm.Proofs.Accounting
import ChipAsm.Proofs.Scoping

/-!
# What an operand stands for as an alias

A name may be bound more than once: within a section, and in several sections.  Within a section the
last binding counts, wherever the operand stands, because a section keeps one target for each name
(`alias?_toSection`).  Of several sections the first placed one counts, because an operand is looked
for in the sections in the order of placing (`standsFor_iff`).  Sections that are placed later, and
those that a run does not take, are not looked at.

A target is not looked for again: the operand is resolved as its target would be where no alias is bound
(`resolveOperand_unaliased`).
-/

namespace ChipAsm

open ChipAsm.Token

/-! ## The last binding of a section -/

/-- The target of a directive that binds the name; it has two operands. -/
def SourceLine.target? (name : String) (l : SourceLine) : Option String :=
  match l.line.head, l.line.operands with
  | .directive word, [bound, target] =>
    if word = "alias" ∧ bound = name then some target else none
  | _, _ => none

/-- The targets that the directives of a body bind the name to, in order. -/
def Body.targets (b : Body) (name : String) : List String := b.lines.filterMap (·.target? name)

/-- The target of a pair with the name. -/
def targetOf (name : String) (pair : String × String) : Option String :=
  if pair.1 = name then some pair.2 else none

theorem Statement.alias?_ofDirective (word : String) (operands : List String) :
    (Statement.ofDirective word operands).alias? =
      match operands with
      | [name, target] => if word = "alias" then some (name, target) else none
      | _ => none := by
  by_cases hdefine : word = "define"
  · subst hdefine
    rcases operands with _ | ⟨name, _ | ⟨target, _ | ⟨_, _⟩⟩⟩ <;> rfl
  by_cases halias : word = "alias"
  · subst halias
    rcases operands with _ | ⟨name, _ | ⟨target, _ | ⟨_, _⟩⟩⟩ <;> rfl
  by_cases hsection : word = "section"
  · subst hsection
    rcases operands with _ | ⟨name, _ | ⟨target, _ | ⟨_, _⟩⟩⟩ <;> rfl
  · have hfaulty : Statement.ofDirective word operands = .faulty := by
      simp [Statement.ofDirective, hdefine, halias, hsection]
    rw [hfaulty]
    rcases operands with _ | ⟨name, _ | ⟨target, _ | ⟨_, _⟩⟩⟩ <;> simp [Statement.alias?, halias]

theorem target?_eq (name : String) (l : SourceLine) :
    l.target? name = l.line.statement.alias?.bind (targetOf name) := by
  obtain ⟨number, head, operands, comment⟩ := l
  cases head with
  | code label opcode => rfl
  | directive word =>
      simp only [SourceLine.target?, Line.statement, Statement.alias?_ofDirective]
      rcases operands with _ | ⟨bound, _ | ⟨target, _ | ⟨_, _⟩⟩⟩
      · rfl
      · rfl
      · by_cases halias : word = "alias" <;> simp [halias, targetOf]
      · rfl

theorem findSome?_bindKey (key value name : String) (bound : List (String × String)) :
    (bindKey key value bound).findSome? (targetOf name) =
      if key = name then some value else bound.findSome? (targetOf name) := by
  induction bound with
  | nil => simp [bindKey, targetOf]
  | cons pair bound ih =>
      rw [bindKey]
      by_cases hpair : pair.1 = key
      · rw [if_pos hpair]
        by_cases hkey : key = name
        · simp [targetOf, hkey]
        · simp [targetOf, hkey, hpair]
      · rw [if_neg hpair, List.findSome?_cons, List.findSome?_cons, ih]
        by_cases hname : pair.1 = name
        · have hkey : key ≠ name := fun hkey => hpair (hname.trans hkey.symm)
          simp [targetOf, hname, hkey]
        · simp [targetOf, hname]

/-- Binding pairs one after another leaves every name with its last target. -/
theorem findSome?_foldl_bindKey (name : String) (pairs : List (String × String)) :
    ∀ bound : List (String × String),
      (pairs.foldl (fun bound pair => bindKey pair.1 pair.2 bound) bound).findSome? (targetOf name) =
        (pairs.filterMap (targetOf name)).getLast?.or (bound.findSome? (targetOf name)) := by
  induction pairs with
  | nil => exact fun bound => rfl
  | cons pair pairs ih =>
      intro bound
      rw [List.foldl_cons, ih, findSome?_bindKey, List.filterMap_cons]
      by_cases hname : pair.1 = name
      · simp only [targetOf, hname, if_true, List.getLast?_cons]
        cases (pairs.filterMap (targetOf name)).getLast? <;> rfl
      · simp only [targetOf, hname, if_false]

theorem Section.alias?_eq (s : Section) (name : String) :
    s.alias? name = s.aliases.findSome? (targetOf name) := by
  rw [Section.alias?]
  induction s.aliases with
  | nil => rfl
  | cons pair rest ih =>
      by_cases hname : pair.1 = name
      · simp [targetOf, hname]
      · simpa [targetOf, hname] using ih

/-- The section of a body keeps the last target of every name. -/
theorem alias?_toSection (b : Body) (name : String) :
    b.toSection.alias? name = (b.targets name).getLast? := by
  have htargets : b.targets name =
      (b.lines.filterMap fun l => l.line.statement.alias?).filterMap (targetOf name) := by
    rw [Body.targets, List.filterMap_filterMap]
    exact List.filterMap_congr fun l _ => target?_eq name l
  rw [Section.alias?_eq, htargets, Body.toSection, Body.aliases, findSome?_foldl_bindKey]
  simp

/-! ## The first section that binds a name -/

/-- The bodies of a source whose sections hold something and are taken by a run, in the order of
placing. -/
def bodiesTaken (source : String) (given : List String) : List Body :=
  ((bodies source).filter fun b => b.toSection.holds).filter fun b =>
    isChosen given (wanted (Reading.of source).program.sections given) b.toSection

section Taken

variable {source : String} {given : List String} {k : Nat} {name target : String}

theorem map_toSection_bodiesTaken (hvalid : (Reading.of source).valid = true) :
    (bodiesTaken source given).map Body.toSection =
      choose (Reading.of source).program.sections given := by
  have hheld : ((bodies source).filter fun b => b.toSection.holds).map Body.toSection =
      (Reading.of source).program.sections := by
    rw [sections_eq_of_valid hvalid, List.filter_map]
    rfl
  rw [choose, bodiesTaken]
  generalize isChosen given (wanted (Reading.of source).program.sections given) = test
  rw [← hheld, List.filter_map]
  rfl

/-- The placed section `k` is that of the body `k` of those that are taken. -/
theorem chosen_getElem?_bodiesTaken (hvalid : (Reading.of source).valid = true) (k : Nat) :
    ((Reading.of source).chosen given)[k]? =
      (bodiesTaken source given)[k]?.map fun b =>
        { b.toSection with
          offset := totalSize ((choose (Reading.of source).program.sections given).take k) } := by
  rw [Reading.chosen, layoutFrom_getElem?, ← map_toSection_bodiesTaken hvalid, List.getElem?_map,
    Option.map_map]
  simp only [Nat.zero_add]
  rfl

theorem findSome?_layoutFrom {β : Type} {f : Section → Option β}
    (hf : ∀ (s : Section) (offset : Nat), f { s with offset } = f s) (sections : List Section)
    (next : Nat) : (layoutFrom next sections).findSome? f = sections.findSome? f := by
  have hmap := congrArg (List.findSome? id) (map_layoutFrom hf sections next)
  rwa [List.findSome?_map, List.findSome?_map] at hmap

/-- The first value that is found up to an index. -/
theorem findSome?_take_eq_some_iff {α β : Type} {f : α → Option β} {xs : List α} {k : Nat} {y : β} :
    (xs.take (k + 1)).findSome? f = some y ↔
      ∃ j x, xs[j]? = some x ∧ j ≤ k ∧ (∀ x' ∈ xs.take j, f x' = none) ∧ f x = some y := by
  constructor
  · intro h
    obtain ⟨front, x, behind, hsplit, hx, hfront⟩ := List.findSome?_eq_some_iff.1 h
    have hlength := congrArg List.length hsplit
    rw [List.length_take, List.length_append, List.length_cons] at hlength
    have hbefore : xs.take front.length = front := by
      have htake := congrArg (List.take front.length) hsplit
      rwa [List.take_take, Nat.min_eq_left (by omega), List.take_left] at htake
    refine ⟨front.length, x, ?_, by omega, hbefore.symm ▸ hfront, hx⟩
    rw [← List.getElem?_take_of_lt (j := k + 1) (by omega), hsplit,
      List.getElem?_append_right (Nat.le_refl _), Nat.sub_self, List.getElem?_cons_zero]
  · rintro ⟨j, x, hx, hle, hfront, hfound⟩
    have hx' : (xs.take (k + 1))[j]? = some x := by
      rw [List.getElem?_take_of_lt (by omega), hx]
    obtain ⟨hlt, rfl⟩ := List.getElem?_eq_some_iff.1 hx'
    refine List.findSome?_eq_some_iff.2
      ⟨xs.take j, _, (xs.take (k + 1)).drop (j + 1), ?_, hfound, hfront⟩
    have hbefore : xs.take j = (xs.take (k + 1)).take j := by
      rw [List.take_take, Nat.min_eq_left (by omega)]
    rw [← List.drop_eq_getElem_cons hlt, hbefore, List.take_append_drop]

theorem unalias_scopeAt (hvalid : (Reading.of source).valid = true) (k : Nat) (name : String) :
    ((Reading.of source).scopeAt given k).unalias name =
      (((bodiesTaken source given).take (k + 1)).findSome?
        fun b => (b.targets name).getLast?).getD name := by
  have hvisible : ((Reading.of source).scopeAt given k).visible =
      layoutFrom 0 (((bodiesTaken source given).take (k + 1)).map Body.toSection) := by
    rw [List.map_take, map_toSection_bodiesTaken hvalid]
    exact take_layoutFrom _ _ _
  rw [Scope.unalias, hvisible, findSome?_layoutFrom (fun _ _ => rfl), List.findSome?_map]
  simp only [Function.comp_def, alias?_toSection]

/-- What an operand of the placed section `k` stands for.  It is the last target in the first placed
section that binds it, among that section and those before it, and if there is none, the operand
itself. -/
inductive StandsFor (source : String) (given : List String) (k : Nat) (name : String) :
    String → Prop where
  | bound {j : Nat} {b : Body} {target : String} (taken : (bodiesTaken source given)[j]? = some b)
    (seen : j ≤ k) (first : ∀ b' ∈ (bodiesTaken source given).take j, b'.targets name = [])
    (last : (b.targets name).getLast? = some target) : StandsFor source given k name target
  | free (unbound : ∀ b ∈ (bodiesTaken source given).take (k + 1), b.targets name = []) :
    StandsFor source given k name name

theorem StandsFor.unalias (hvalid : (Reading.of source).valid = true)
    (h : StandsFor source given k name target) :
    ((Reading.of source).scopeAt given k).unalias name = target := by
  rw [unalias_scopeAt hvalid]
  cases h with
  | bound taken seen first last =>
      rw [findSome?_take_eq_some_iff.2 ⟨_, _, taken, seen, fun b hb => ?_, last⟩, Option.getD_some]
      rw [first b hb, List.getLast?_nil]
  | free unbound =>
      have hnone : ((bodiesTaken source given).take (k + 1)).findSome?
          (fun b => (b.targets name).getLast?) = none :=
        List.findSome?_eq_none_iff.2 fun b hb => by rw [unbound b hb, List.getLast?_nil]
      rw [hnone, Option.getD_none]

theorem exists_standsFor (source : String) (given : List String) (k : Nat) (name : String) :
    ∃ target, StandsFor source given k name target := by
  cases hfind : ((bodiesTaken source given).take (k + 1)).findSome?
      (fun b => (b.targets name).getLast?) with
  | none =>
      refine ⟨name, .free fun b hb => ?_⟩
      exact List.getLast?_eq_none_iff.1 (List.findSome?_eq_none_iff.1 hfind b hb)
  | some target =>
      obtain ⟨j, b, taken, seen, first, last⟩ := findSome?_take_eq_some_iff.1 hfind
      exact ⟨target, .bound taken seen (fun b' hb' => List.getLast?_eq_none_iff.1 (first b' hb')) last⟩

/-- An operand stands for exactly one target, and this is what it is replaced by. -/
theorem standsFor_iff (hvalid : (Reading.of source).valid = true) :
    StandsFor source given k name target ↔
      ((Reading.of source).scopeAt given k).unalias name = target := by
  refine ⟨fun h => h.unalias hvalid, fun h => ?_⟩
  obtain ⟨other, hother⟩ := exists_standsFor source given k name
  rwa [← hother.unalias hvalid, h] at hother

end Taken

/-! ## Operands of instructions -/

/-- The scope without any alias. -/
def Scope.withoutAliases (scope : Scope) : Scope :=
  { scope with visible := scope.visible.map fun s => { s with aliases := [] } }

theorem Scope.unalias_withoutAliases (scope : Scope) (token : String) :
    scope.withoutAliases.unalias token = token := by
  refine unalias_eq_self fun s hs => ?_
  obtain ⟨t, -, rfl⟩ := List.mem_map.1 hs
  rfl

theorem Scope.find?_withoutAliases (scope : Scope) :
    scope.withoutAliases.find? = scope.find? :=
  Scope.find?_map fun _ => ⟨rfl, rfl, rfl⟩

theorem Scope.lookupProblems_withoutAliases (scope : Scope) (name : String) (allowsUnknown : Bool) :
    scope.withoutAliases.lookupProblems name allowsUnknown =
      scope.lookupProblems name allowsUnknown := by
  simp only [Scope.lookupProblems, Scope.find?_withoutAliases]
  rfl

/-- An operand is resolved as its target would be without any alias. -/
theorem resolveOperand_unaliased {options : Options} {scope : Scope} {address : Int} {token : String}
    {c : Constraint} (h : c.substitutes = true) :
    resolveOperand options scope address token c =
      resolveOperand options scope.withoutAliases address (scope.unalias token) c := by
  simp only [resolveOperand_eq, Scope.lookedUp, h, if_true, Scope.unalias_withoutAliases,
    Scope.find?_withoutAliases, Scope.lookupProblems_withoutAliases]

/-- An operand where aliases are replaced stands for one target: the last in the first placed section
that binds it, up to its own, or itself.  It is resolved as this target without any alias, and so are
the texts in the lines of output. -/
theorem alias_operand_target {source : String} {k i : Nat} {s : Section} {l : Instruction}
    {signature : Signature} {token : String} {c : Constraint} (table : Table) (options : Options)
    (hvalid : (Reading.of source).valid = true)
    (hs : ((Reading.of source).chosen options.sections)[k]? = some s) (hl : l ∈ s.lines)
    (hlookup : table.lookup l.opcode = some signature) (htoken : l.operands[i]? = some token)
    (hc : signature.constraints[i]? = some c) (hsubstitutes : c.substitutes = true) :
    (∃ b, (bodiesTaken source options.sections)[k]? = some b ∧
      s = { b.toSection with offset := s.offset }) ∧
    ∃ target,
      (∀ other, StandsFor source options.sections k token other ↔ other = target) ∧
      ((Reading.of source).scopeAt options.sections k).lookedUp token c = target ∧
      resolveOperand options ((Reading.of source).scopeAt options.sections k)
          (l.position + s.offset) token c =
        resolveOperand options ((Reading.of source).scopeAt options.sections k).withoutAliases
          (l.position + s.offset) target c ∧
      ∀ n texts, (Reading.of source).Emits table options n l texts →
        ∃ r, resolveOperand options ((Reading.of source).scopeAt options.sections k).withoutAliases
            (l.position + s.offset) target c = .ok r ∧
          texts[i]? = some r.text := by
  constructor
  · rw [chosen_getElem?_bodiesTaken hvalid] at hs
    obtain ⟨b, hb, rfl⟩ := Option.map_eq_some_iff.1 hs
    exact ⟨b, hb, rfl⟩
  refine ⟨((Reading.of source).scopeAt options.sections k).unalias token, fun other => ?_, ?_,
    resolveOperand_unaliased hsubstitutes, fun n texts hemits => ?_⟩
  · rw [standsFor_iff hvalid, eq_comm]
  · rw [Scope.lookedUp, if_pos hsubstitutes]
  · obtain ⟨k', s', r, hs', hl', hresolve, htext⟩ := hemits.operand hlookup htoken hc
    obtain rfl := chosen_unique hs hl hs' hl'
    cases hs.symm.trans hs'
    exact ⟨r, resolveOperand_unaliased hsubstitutes ▸ hresolve, htext⟩

/-- The operand `p` stands before the bindings of its own section, and the last target is bound
itself.  The first section is not taken. -/
def boundTwice : String :=
  "section a\nalias p d5\nsection b\nl r0 p On\nalias d1 d4\nalias p d0\nalias p d1"

/-- The instruction of `boundTwice` with the operand `p`. -/
def boundTwiceUse : Instruction := ⟨"l", ["r0", "p", "On"], 3, 0, none⟩

theorem alias_operand_target_boundTwice :
    (Reading.of boundTwice).valid = true ∧
    StandsFor boundTwice ["b"] 0 "p" "d1" ∧
    ∃ n texts, (Reading.of boundTwice).Emits .standard ⟨["b"], false, false⟩ n boundTwiceUse texts ∧
      texts[1]? = some "d1" := by
  have hvalid : (Reading.of boundTwice).valid = true := by decide +kernel
  have hlines : ((Reading.of boundTwice).chosen ["b"])[0]?.map
      (fun s => (s.lines[0]?, s.offset)) = some (some boundTwiceUse, 0) := by
    decide +kernel
  obtain ⟨s, hs, hpair⟩ := Option.map_eq_some_iff.1 hlines
  obtain ⟨hline, hoffset⟩ := Prod.mk.inj hpair
  have hsignature : Table.standard.lookup "l" =
      some ⟨"l", [InstructionSet.out, InstructionSet.dev, InstructionSet.enum]⟩ := by
    decide +kernel
  have htarget : ((Reading.of boundTwice).scopeAt ["b"] 0).lookedUp "p" InstructionSet.dev =
      "d1" := by
    decide +kernel
  obtain ⟨-, target, hstands, hlooked, -, htexts⟩ :=
    alias_operand_target (i := 1) .standard ⟨["b"], false, false⟩ hvalid hs
      (List.mem_of_getElem? hline) hsignature rfl rfl (by decide)
  obtain rfl : target = "d1" := hlooked.symm.trans htarget
  have hrun : ((Reading.of boundTwice).assemble .standard [] ⟨["b"], false, false⟩).result.map
      Assembly.valid = .ok true := by
    decide +kernel
  obtain ⟨a, hrun, -⟩ := map_eq_ok.1 hrun
  obtain ⟨n, texts, hemits, -, -⟩ := emits_of_mem_chosen hvalid hrun (List.mem_of_getElem? hs)
    (List.mem_of_getElem? hline) (Table.fits_iff.2 ⟨_, hsignature, rfl⟩)
  obtain ⟨r, hr, htext⟩ := htexts n texts hemits
  have hresolved : (resolveOperand ⟨["b"], false, false⟩
      ((Reading.of boundTwice).scopeAt ["b"] 0).withoutAliases 0 "d1" InstructionSet.dev).map
        Resolved.text = .ok "d1" := by
    decide +kernel
  obtain ⟨r', hr', hd1⟩ := map_eq_ok.1 hresolved
  rw [hoffset] at hr
  cases hr.symm.trans hr'
  exact ⟨hvalid, (hstands "d1").2 rfl, n, texts, hemits, hd1 ▸ htext⟩

end ChipAsm
