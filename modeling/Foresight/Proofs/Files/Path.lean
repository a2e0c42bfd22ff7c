import Foresight.Files.Path
import Foresight.Proofs.Text.Pieces

/-!
# Paths with an extension, and paths into a directory

Two ways in which the paths of the data directory are made. An extension behind a path only makes
its last step longer (`exists_steps_append`), and a name joined to a directory is one more step
(`steps_join`).
-/

namespace Foresight

namespace Text

theorem beginsWith_append {lead : String} {c : Char} (hlead : lead.toList = [c]) {text : String}
    (h : text ≠ "") (more : String) : beginsWith lead (text ++ more) = beginsWith lead text := by
  obtain ⟨first, rest, htext⟩ : ∃ first rest, text.toList = first :: rest := by
    cases htext : text.toList with
    | nil => exact absurd (String.toList_eq_nil_iff.mp htext) h
    | cons first rest => exact ⟨first, rest, rfl⟩
  unfold beginsWith
  rw [String.toList_append, hlead, htext, List.cons_append]
  unfold dropLead?
  split
  · rfl
  · rfl

theorem endsWith_iff {tail text : String} :
    endsWith tail text = true ↔ ∃ before, text = before ++ tail := by
  unfold endsWith stripTail?
  rw [Option.isSome_map, Option.isSome_iff_exists]
  constructor
  · rintro ⟨rest, hrest⟩
    have htext := dropLead?_eq_some_iff.mp hrest
    refine ⟨String.ofList rest.reverse, String.ext ?_⟩
    rw [String.toList_append, String.toList_ofList, ← List.reverse_eq_iff.mpr htext.symm]
    simp
  · rintro ⟨before, rfl⟩
    exact ⟨before.toList.reverse, dropLead?_eq_some_iff.mpr (by simp)⟩

end Text

namespace Path

/-- What can stand behind a path without beginning another step. -/
structure IsExtension (ext : String) : Prop where
  ne_empty : ext ≠ ""
  no_slash : '/' ∉ ext.toList

theorem isExtension_xml : IsExtension ".xml" := ⟨by decide, by decide⟩

theorem isExtension_tmp : IsExtension ".tmp" := ⟨by decide, by decide⟩

/-- A step that is the last one of a path is no piece between two slashes of it. -/
theorem IsExtension.isSeparator {ext : String} (h : IsExtension ext) :
    ∀ c ∈ ext.toList, (c == '/') = false := by
  intro c hc
  exact beq_false_of_ne fun heq => h.no_slash (heq ▸ hc)

theorem IsExtension.isAbsolute {ext : String} (h : IsExtension ext) : isAbsolute ext = false := by
  unfold Path.isAbsolute Text.beginsWith
  cases htext : ext.toList with
  | nil => exact absurd (String.toList_eq_nil_iff.mp htext) h.ne_empty
  | cons c rest =>
    have hc : c ≠ '/' := fun heq => h.no_slash (htext ▸ heq ▸ List.mem_cons_self)
    have hlead : "/".toList = ['/'] := by decide
    rw [hlead, Text.dropLead?, if_neg (by simpa using hc.symm)]
    rfl

theorem isAbsolute_append {path : String} (h : path ≠ "") (more : String) :
    isAbsolute (path ++ more) = isAbsolute path :=
  Text.beginsWith_append (c := '/') (by decide) h more

theorem IsExtension.isFolderForm {ext : String} (h : IsExtension ext) (path : String) :
    isFolderForm (path ++ ext) = false := by
  refine Bool.eq_false_iff.mpr fun hform => ?_
  obtain ⟨before, hbefore⟩ := Text.endsWith_iff.mp hform
  have hlist := congrArg String.toList hbefore
  rw [String.toList_append, String.toList_append] at hlist
  have hlast := congrArg List.getLast? hlist
  have hslash : (before.toList ++ "/".toList).getLast? = some '/' := List.getLast?_concat
  have hne : ext.toList ≠ [] := fun hnil => h.ne_empty (String.toList_eq_nil_iff.mp hnil)
  rw [hslash, List.getLast?_append, List.getLast?_eq_some_getLast hne, Option.some_or] at hlast
  exact h.no_slash (Option.some.inj hlast ▸ List.getLast_mem hne)

/-- A step that is longer than two dots is a name. -/
theorem isName_append (stem : String) {ext : String} (h : 2 < ext.length) :
    isName (stem ++ ext) = true := by
  have hlength : 2 < (stem ++ ext).length := by
    rw [String.length_append]
    omega
  have hne : stem ++ ext ≠ "." ∧ stem ++ ext ≠ ".." := by
    constructor
    · intro hdot
      rw [hdot] at hlength
      exact absurd hlength (by decide)
    · intro hdots
      rw [hdots] at hlength
      exact absurd hlength (by decide)
  simpa [isName] using hne

/-- An extension makes the last step of a path longer, and leaves the steps before it alone. -/
theorem exists_steps_append (path : String) : ∃ init stem, ∀ ext, IsExtension ext →
    steps (path ++ ext) = init ++ [stem ++ ext] := by
  obtain ⟨init, last, h⟩ := Text.exists_pieces_append (p := (· == '/')) path.toList
  refine ⟨(init.map String.ofList).filter (· != ""), String.ofList last, fun ext hext => ?_⟩
  have hstep : String.ofList (last ++ ext.toList) = String.ofList last ++ ext := by
    rw [String.ofList_append, String.ofList_toList]
  have hlast : [String.ofList last ++ ext].filter (· != "") = [String.ofList last ++ ext] :=
    List.filter_cons_of_pos (bne_iff_ne.mpr fun hempty =>
      hext.ne_empty (String.append_eq_empty_iff.mp hempty).2)
  unfold steps Text.splitAt
  rw [String.toList_append, h ext.toList hext.isSeparator, List.map_append, List.filter_append,
    List.map_singleton, hstep, hlast]

theorem join_append (root name : String) {ext : String} (h : IsExtension ext) :
    join root (name ++ ext) = join root name ++ ext := by
  have habsolute : isAbsolute (name ++ ext) = isAbsolute name := by
    by_cases hname : name = ""
    · rw [hname, String.empty_append, h.isAbsolute]
      decide
    · exact isAbsolute_append hname ext
  unfold join
  rw [habsolute]
  split
  · rfl
  · split
    · rw [String.append_assoc]
    · exact String.append_assoc.symm

/-- A name joined to a directory is a step from there. -/
theorem steps_join {root name : String} (hroot : root ≠ "") (hname : IsExtension name) :
    steps (join root name) = steps root ++ [name] := by
  have hpieces : Text.pieces (· == '/') name.toList = [name.toList] :=
    Text.pieces_of_forall hname.isSeparator
  have hlast : [name].filter (· != "") = [name] :=
    List.filter_cons_of_pos (bne_iff_ne.mpr hname.ne_empty)
  have hsep : ('/' == '/') = true := beq_self_eq_true '/'
  have hcut : ∀ base : String, steps (base ++ "/" ++ name) = steps base ++ [name] := by
    intro base
    unfold steps Text.splitAt
    have hslash : (base ++ "/" ++ name).toList = base.toList ++ '/' :: name.toList := by
      simp
    rw [hslash, Text.pieces_append_separator (p := (· == '/')) _ hsep, hpieces, List.map_append,
      List.filter_append, List.map_singleton, String.ofList_toList, hlast]
  unfold join
  rw [hname.isAbsolute, Bool.false_or, if_neg (by simpa using hroot)]
  split
  · rename_i hform
    obtain ⟨base, rfl⟩ := Text.endsWith_iff.mp hform
    have hbase : steps (base ++ "/") = steps base := by
      unfold steps Text.splitAt
      rw [String.toList_append]
      have hslash : "/".toList = '/' :: [] := by decide
      rw [hslash, Text.pieces_append_separator (p := (· == '/')) _ hsep, List.map_append,
        List.filter_append]
      exact List.append_nil _
    rw [hcut, hbase]
  · exact hcut root

theorem isAbsolute_join {root name : String} (hroot : root ≠ "") (hname : IsExtension name) :
    isAbsolute (join root name) = isAbsolute root := by
  unfold join
  rw [hname.isAbsolute, Bool.false_or, if_neg (by simpa using hroot)]
  split
  · exact isAbsolute_append hroot name
  · rw [String.append_assoc]
    exact isAbsolute_append hroot _

end Path

end Foresight
