import Mathlib.Data.List.TakeWhile
import ChipAsm.Settings

/-!
# Names of output files

The name of an output is the name of its source with the marker in front of the extension.  A name is made
up of a stem and its extension (`exists_stem`), so it is known from its output as soon as it is known where
the extension starts.

With extensions of a given length this is told by the length of the output, which is that of the source and
of the marker together (`outputName_inj_of_some`).  Otherwise the extension starts at the last dot of the
name.  The marker `.min` looks like an extension itself.  An output that ends in it has a source without
an extension, since one with the extension `.min` would have the marker in front of that
(`outputName_inj_of_none`).
-/

namespace ChipAsm

open ChipAsm.Text

/-! ## Paths -/

namespace Path

/-- The directory that a path lies in. -/
def parent (p : Path) : Path := { p with parts := p.parts.dropLast }

theorem parts_eq {p : Path} (h : p.parts ≠ []) : p.parts = p.parts.dropLast ++ [p.name] := by
  rw [name, List.getLast?_eq_some_getLast h, Option.getD_some, List.dropLast_concat_getLast h]

/-- The last of the pieces that are put together ends the whole. -/
theorem exists_intercalate_concat (sep : List Char) (pieces : List (List Char)) :
    ∃ front, ∀ piece, sep.intercalate (pieces ++ [piece]) = front ++ piece := by
  induction pieces with
  | nil => exact ⟨[], fun piece => by simp⟩
  | cons first pieces ih =>
      obtain ⟨front, hfront⟩ := ih
      refine ⟨first ++ sep ++ front, fun piece => ?_⟩
      rw [List.cons_append, List.intercalate_cons_of_ne_nil (by simp), hfront]
      simp

/-- Two paths of one directory with one text have one name. -/
theorem name_eq_of_text {p q : Path} (hp : p.parts ≠ []) (hq : q.parts ≠ [])
    (hparent : p.parent = q.parent) (h : p.text = q.text) : p.name = q.name := by
  obtain ⟨hslashes, hdirectory⟩ := Path.mk.inj hparent
  obtain ⟨front, hfront⟩ :=
    exists_intercalate_concat ['/'] (q.parts.dropLast.map String.toList)
  have htext : ∀ r : Path, r.parts ≠ [] → r.parts.dropLast = q.parts.dropLast →
      r.text.toList = List.replicate r.slashes '/' ++ (front ++ r.name.toList) := by
    intro r hr hdropped
    rw [text, if_neg fun h => hr h.2, String.toList_append, String.toList_ofList,
      String.toList_intercalate, parts_eq hr, hdropped, List.map_append]
    exact congrArg _ (hfront _)
  have hchars := congrArg String.toList h
  rw [htext p hp hdirectory, htext q hq rfl, hslashes, List.append_cancel_left_eq,
    List.append_cancel_left_eq] at hchars
  exact String.toList_inj.1 hchars

end Path

/-! ## Suffixes -/

/-- A text is divided in one way at its last dot. -/
theorem append_dot_inj {stem stem' ext ext' : List Char} (h : '.' ∉ ext) (h' : '.' ∉ ext')
    (heq : stem ++ '.' :: ext = stem' ++ '.' :: ext') : stem = stem' ∧ ext = ext' := by
  rcases List.append_eq_append_iff.1 heq with ⟨between, hstem, hrest⟩ | ⟨between, hstem, hrest⟩
  · cases between with
    | nil => simp_all
    | cons c between =>
        rw [List.cons_append, List.cons.injEq] at hrest
        simp [hrest.2] at h
  · cases between with
    | nil => simp_all
    | cons c between =>
        rw [List.cons_append, List.cons.injEq] at hrest
        simp [hrest.2] at h'

namespace Path

theorem suffixOf_append {stem ext : List Char} (hstem : stem ≠ []) (hext : ext ≠ [])
    (hdot : '.' ∉ ext) : suffixOf (stem ++ '.' :: ext) = '.' :: ext := by
  have hback : (stem ++ '.' :: ext).reverse = ext.reverse ++ '.' :: stem.reverse := by simp
  have hall : ∀ c ∈ ext.reverse, (c != '.') = true := by
    intro c hc
    rw [bne_iff_ne]
    rintro rfl
    exact hdot (List.mem_reverse.1 hc)
  have htake : (ext.reverse ++ '.' :: stem.reverse).takeWhile (· != '.') = ext.reverse := by
    rw [List.takeWhile_append_of_pos hall]
    simp
  have hdrop : (ext.reverse ++ '.' :: stem.reverse).dropWhile (· != '.') = '.' :: stem.reverse := by
    rw [List.dropWhile_append_of_pos hall]
    simp
  obtain ⟨c, more, hc⟩ := List.exists_cons_of_ne_nil (mt List.reverse_eq_nil_iff.1 hext)
  obtain ⟨d, rest, hd⟩ := List.exists_cons_of_ne_nil (mt List.reverse_eq_nil_iff.1 hstem)
  simp only [suffixOf, hback, htake, hdrop]
  simp only [hc, hd]
  rw [← hc, List.reverse_reverse]

/-- The suffix of a name is nothing, or the last dot of the name with all that stands behind it, and then
something stands in front of the dot. -/
theorem suffixOf_cases (name : List Char) :
    suffixOf name = [] ∨ ∃ stem ext, name = stem ++ '.' :: ext ∧ stem ≠ [] ∧ '.' ∉ ext ∧
      suffixOf name = '.' :: ext := by
  have hsplit := List.takeWhile_append_dropWhile (p := (· != '.')) (l := name.reverse)
  simp only [suffixOf]
  split
  · rename_i c more d e rest htake hdrop
    have hdot : d = '.' := by
      have hhead := List.head?_dropWhile_not (· != '.') name.reverse
      rw [hdrop] at hhead
      simpa using hhead
    refine .inr ⟨(e :: rest).reverse, (c :: more).reverse, ?_, by simp, ?_, rfl⟩
    · rw [htake, hdrop, hdot] at hsplit
      have hname := congrArg List.reverse hsplit
      rw [List.reverse_reverse] at hname
      rw [← hname]
      simp
    · intro hmem
      rw [List.mem_reverse, ← htake] at hmem
      have hne := List.mem_takeWhile_imp hmem
      simp at hne
  · exact .inl rfl

end Path

/-! ## Stems and extensions -/

namespace Settings

variable {settings : Settings}

theorem extension_suffix (settings : Settings) (name : List Char) :
    settings.extension name <:+ name := by
  rw [extension]
  split
  · rcases Path.suffixOf_cases name with hnone | ⟨stem, ext, hname, -, -, hsuffix⟩
    · rw [hnone]
      exact List.nil_suffix
    · rw [hsuffix]
      exact ⟨stem, hname.symm⟩
  · split
    · exact List.drop_suffix _ _
    · exact List.nil_suffix

/-- A name is a stem and an extension, and the marker stands between them in the output. -/
theorem exists_stem (settings : Settings) (name : List Char) :
    ∃ stem, name = stem ++ settings.extension name ∧
      settings.outputName name = stem ++ settings.marker.toList ++ settings.extension name := by
  have htake : ∀ stem ext : List Char, (stem ++ ext).take ((stem ++ ext).length - ext.length) = stem := by
    simp
  obtain ⟨stem, hstem⟩ := extension_suffix settings name
  have hfront := htake stem (settings.extension name)
  rw [hstem] at hfront
  exact ⟨stem, hstem.symm, by simp only [outputName, hfront]⟩

theorem length_outputName (settings : Settings) (name : List Char) :
    (settings.outputName name).length = name.length + settings.marker.toList.length := by
  obtain ⟨stem, hname, houtput⟩ := exists_stem settings name
  have hlength := congrArg List.length hname
  rw [List.length_append] at hlength
  rw [houtput, List.length_append, List.length_append, hlength]
  omega

/-- Extensions of a given length are told by the length of the name. -/
theorem outputName_inj_of_some {k : Int} {name name' : List Char}
    (hlength : settings.extensionLength = some k)
    (h : settings.outputName name = settings.outputName name') : name = name' := by
  have hnames : name.length = name'.length := by
    have houtputs := congrArg List.length h
    rw [length_outputName, length_outputName] at houtputs
    omega
  have hextensions : (settings.extension name).length = (settings.extension name').length := by
    rw [extension, extension, hlength]
    dsimp only
    rw [hnames]
    split
    · rw [List.length_drop, List.length_drop, hnames]
    · rfl
  obtain ⟨stem, hname, houtput⟩ := exists_stem settings name
  obtain ⟨stem', hname', houtput'⟩ := exists_stem settings name'
  rw [houtput, houtput'] at h
  obtain ⟨hfront, hback⟩ := List.append_inj' h hextensions
  rw [hname, hname', List.append_cancel_right hfront, hback]

/-- A name without a suffix has another output than a stem with a suffix. -/
theorem suffix_ne_concat_marker {stem ext name : List Char} (hstem : stem ≠ []) (hdot : '.' ∉ ext)
    (hname : Path.suffixOf name = []) :
    stem ++ ['.', 'm', 'i', 'n'] ++ '.' :: ext ≠ name ++ ['.', 'm', 'i', 'n'] := by
  intro h
  obtain ⟨rfl, -⟩ := append_dot_inj hdot (by decide) h
  have hsuffix := Path.suffixOf_append hstem (List.cons_ne_nil 'm' ['i', 'n']) (by decide)
  rw [hname] at hsuffix
  cases hsuffix

theorem outputName_cases (hlength : settings.extensionLength = none)
    (hmarker : settings.marker = ".min") (name : List Char) :
    (Path.suffixOf name = [] ∧ settings.outputName name = name ++ ['.', 'm', 'i', 'n']) ∨
      ∃ stem ext, name = stem ++ '.' :: ext ∧ stem ≠ [] ∧ '.' ∉ ext ∧
        settings.outputName name = stem ++ ['.', 'm', 'i', 'n'] ++ '.' :: ext := by
  have hchars : settings.marker.toList = ['.', 'm', 'i', 'n'] := by
    rw [hmarker]
    rfl
  have hextension : settings.extension name = Path.suffixOf name := by rw [extension, hlength]
  obtain ⟨front, hfront, houtput⟩ := exists_stem settings name
  rw [hextension] at hfront houtput
  rw [hchars] at houtput
  rcases Path.suffixOf_cases name with hnone | ⟨stem, ext, hname, hstem, hdot, hsuffix⟩
  · rw [hnone, List.append_nil] at hfront houtput
    rw [← hfront] at houtput
    exact .inl ⟨hnone, houtput⟩
  · rw [hsuffix] at hfront houtput
    have hsame : front = stem := List.append_cancel_right (hfront.symm.trans hname)
    rw [hsame] at houtput
    exact .inr ⟨stem, ext, hname, hstem, hdot, houtput⟩

/-- The marker `.min` is not taken for an extension. -/
theorem outputName_inj_of_none {name name' : List Char} (hlength : settings.extensionLength = none)
    (hmarker : settings.marker = ".min")
    (h : settings.outputName name = settings.outputName name') : name = name' := by
  rcases outputName_cases hlength hmarker name with
    ⟨hnone, houtput⟩ | ⟨stem, ext, hname, hstem, hdot, houtput⟩
  · rcases outputName_cases hlength hmarker name' with
      ⟨-, houtput'⟩ | ⟨stem', ext', -, hstem', hdot', houtput'⟩
    · rw [houtput, houtput'] at h
      exact List.append_cancel_right h
    · rw [houtput, houtput'] at h
      exact absurd h.symm (suffix_ne_concat_marker hstem' hdot' hnone)
  · rcases outputName_cases hlength hmarker name' with
      ⟨hnone', houtput'⟩ | ⟨stem', ext', hname', -, hdot', houtput'⟩
    · rw [houtput, houtput'] at h
      exact absurd h (suffix_ne_concat_marker hstem hdot hnone')
    · rw [houtput, houtput'] at h
      obtain ⟨hfront, hback⟩ := append_dot_inj hdot hdot' h
      rw [hname, hname', List.append_cancel_right hfront, hback]

/-! ## Output paths -/

theorem outputPath?_eq_some_iff {source output : Path} :
    settings.outputPath? source = some output ↔ settings.outputPath source = .ok output := by
  rw [outputPath?]
  cases settings.outputPath source with
  | error fault => exact ⟨nofun, nofun⟩
  | ok path => exact ⟨fun h => congrArg _ (Option.some.inj h), fun h => congrArg _ (Except.ok.inj h)⟩

theorem outputPath?_eq_some {source output : Path} (h : settings.outputPath? source = some output) :
    source.parts ≠ [] ∧ output.parts ≠ [] ∧ output.parent = source.parent ∧
      output.name.toList = settings.outputName source.name.toList ∧
      Path.isName output.name.toList = true := by
  have hlast : ∀ name, (Path.mk source.slashes (source.parts.dropLast ++ [name])).name = name := by
    simp [Path.name]
  rw [outputPath?_eq_some_iff, outputPath, Path.withName] at h
  split at h
  · cases h
  · rename_i hparts
    split at h
    · rename_i hname
      cases h
      refine ⟨hparts, by simp, by simp [Path.parent], ?_, ?_⟩
      · rw [hlast, String.toList_ofList]
      · rwa [hlast]
    · cases h

/-- The path of an output that is opened has one part more than the directory of its source. -/
theorem exists_clean_parts {path : Path} (hparts : path.parts ≠ [])
    (hname : Path.isName path.name.toList = true) :
    ∃ part, path.clean.parts = path.parent.clean.parts ++ [part] := by
  rw [Path.isName, Bool.and_eq_true, beq_iff_eq] at hname
  obtain ⟨part, hpart⟩ := List.length_eq_one_iff.1 hname.2
  refine ⟨part, ?_⟩
  rw [Path.clean, Path.parts_eq hparts]
  simp [Path.clean, Path.parent, hpart]

/-- Two sources of one directory have two outputs.  This holds for extensions of a given length with any
marker, and for suffixes with the marker `.min`.  An output lies in the directory of its source: what is
opened has one part more than the directory.  If the marker has anything in it, the output is not the path
of the source.  Paths that differ here differ as texts also. -/
theorem outputPath?_distinct (settings : Settings) :
    (∀ source source' output output' : Path,
      settings.extensionLength ≠ none ∨ settings.extensionLength = none ∧ settings.marker = ".min" →
      source.parent = source'.parent → source.name ≠ source'.name →
      settings.outputPath? source = some output → settings.outputPath? source' = some output' →
        output ≠ output' ∧ output.text ≠ output'.text) ∧
    ∀ source output : Path, settings.marker ≠ "" → settings.outputPath? source = some output →
      output.parent = source.parent ∧
        (∃ part, output.clean.parts = source.parent.clean.parts ++ [part]) ∧
        output ≠ source ∧ output.text ≠ source.text := by
  have hne : ∀ p q : Path, p.text ≠ q.text → p ≠ q ∧ p.text ≠ q.text :=
    fun p q h => ⟨fun heq => h (congrArg Path.text heq), h⟩
  constructor
  · intro source source' output output' hsettings hparent hnames houtput houtput'
    obtain ⟨-, hparts, hbeside, hname, -⟩ := outputPath?_eq_some houtput
    obtain ⟨-, hparts', hbeside', hname', -⟩ := outputPath?_eq_some houtput'
    refine hne _ _ fun htext => hnames ?_
    have hsame : output.parent = output'.parent := by rw [hbeside, hbeside', hparent]
    have heq := congrArg String.toList (Path.name_eq_of_text hparts hparts' hsame htext)
    rw [hname, hname'] at heq
    rcases hsettings with hlength | ⟨hlength, hmarker⟩
    · obtain ⟨k, hk⟩ := Option.ne_none_iff_exists'.1 hlength
      exact String.toList_inj.1 (outputName_inj_of_some hk heq)
    · exact String.toList_inj.1 (outputName_inj_of_none hlength hmarker heq)
  · intro source output hmarker houtput
    obtain ⟨hsource, hparts, hbeside, hname, hproper⟩ := outputPath?_eq_some houtput
    refine ⟨hbeside, hbeside ▸ exists_clean_parts hparts hproper, hne _ _ fun htext => hmarker ?_⟩
    have heq := congrArg String.toList (Path.name_eq_of_text hparts hsource hbeside htext)
    have hlength := congrArg List.length (hname.symm.trans heq)
    rw [length_outputName] at hlength
    exact String.toList_inj.1 (List.eq_nil_of_length_eq_zero (by omega))

/-- A source that is named like the output of another one. -/
theorem outputPath?_distinct_nested :
    ({} : Settings).outputPath? ⟨0, ["lib", "prog"]⟩ = some ⟨0, ["lib", "prog.min"]⟩ ∧
      ({} : Settings).outputPath? ⟨0, ["lib", "prog.min"]⟩ = some ⟨0, ["lib", "prog.min.min"]⟩ ∧
      (⟨0, ["lib", "prog.min"]⟩ : Path).text ≠ (⟨0, ["lib", "prog.min.min"]⟩ : Path).text ∧
      (⟨0, ["lib", "prog.min"]⟩ : Path).text ≠ (⟨0, ["lib", "prog"]⟩ : Path).text := by
  have hprog : ({} : Settings).outputPath? ⟨0, ["lib", "prog"]⟩ = some ⟨0, ["lib", "prog.min"]⟩ := by
    decide +kernel
  have hmin : ({} : Settings).outputPath? ⟨0, ["lib", "prog.min"]⟩ =
      some ⟨0, ["lib", "prog.min.min"]⟩ := by
    decide +kernel
  obtain ⟨hdistinct, hbeside⟩ := outputPath?_distinct {}
  exact ⟨hprog, hmin, (hdistinct _ _ _ _ (.inr ⟨rfl, rfl⟩) (by decide) (by decide) hprog hmin).2,
    (hbeside _ _ (by decide) hprog).2.2.2⟩

end Settings

end ChipAsm
