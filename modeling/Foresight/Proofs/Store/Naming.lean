import Foresight.Proofs.Files.Directory
import Foresight.Store.Directory

/-!
# What the files of the data directory are called

The names that a solution can have (`IsSolutionName`), and what follows for the files that are
called by it: a corpus is one of the corpora and nothing else that lies in the directory, and a
temporary file is none of them.
-/

namespace Foresight.Store

open Foresight.Path

/-- A name by which a solution can be told from all else in the data directory. -/
structure IsSolutionName (name : String) : Prop where
  not_blank : Text.isBlankText name = false
  no_separator : '/' ∉ name.toList
  visible : isHiddenName name = false
  not_reserved : Text.sameIgnoringCase "_Suggestions" name = false

instance (name : String) : Decidable (IsSolutionName name) :=
  decidable_of_iff (Text.isBlankText name = false ∧ '/' ∉ name.toList ∧
      isHiddenName name = false ∧ Text.sameIgnoringCase "_Suggestions" name = false)
    ⟨fun ⟨h₁, h₂, h₃, h₄⟩ => ⟨h₁, h₂, h₃, h₄⟩, fun h => ⟨h.1, h.2, h.3, h.4⟩⟩

variable {name other : String}

theorem IsSolutionName.ne_empty (h : IsSolutionName name) : name ≠ "" := by
  rintro rfl
  exact absurd h.not_blank (by decide)

theorem isEntryName_append (h : '/' ∉ name.toList) {ext : String} (hext : IsExtension ext)
    (hlength : 2 < ext.length) : Disk.IsEntryName (name ++ ext) where
  extension :=
    { ne_empty := fun hempty => hext.ne_empty (String.append_eq_empty_iff.mp hempty).2
      no_slash := by
        rw [String.toList_append, List.mem_append, not_or]
        exact ⟨h, hext.no_slash⟩ }
  isName := isName_append name hlength

theorem isEntryName_xml (h : '/' ∉ name.toList) : Disk.IsEntryName (name ++ ".xml") :=
  isEntryName_append h isExtension_xml (by decide)

theorem isEntryName_tmp (h : '/' ∉ name.toList) : Disk.IsEntryName (name ++ ".tmp") :=
  isEntryName_append h isExtension_tmp (by decide)

theorem extensionOf?_xml (h : name ≠ "") : extensionOf? (name ++ ".xml") = some "xml" := by
  have hlast : ".xml".toList.reverse = ['l', 'm', 'x', '.'] := by decide
  unfold extensionOf? Text.cutLast?
  rw [String.toList_append, List.reverse_append, hlast]
  simp [Text.cutAt?, Text.dropLead?, h]

theorem IsSolutionName.isCorpusName (h : IsSolutionName name) :
    isCorpusName (name ++ ".xml") = true := by
  have hvisible : isHiddenName (name ++ ".xml") = false := by
    unfold isHiddenName
    rw [Text.beginsWith_append (c := '.') (by decide) h.ne_empty]
    exact h.visible
  have hreserved : Text.sameIgnoringCase suggestionsName (name ++ ".xml") = false := by
    have hname : suggestionsName.toList = "_Suggestions".toList ++ ".xml".toList := by decide
    refine Bool.eq_false_iff.mpr fun hsame => ?_
    have hsame := beq_iff_eq.mp hsame
    rw [hname, String.toList_append, List.map_append, List.map_append] at hsame
    have hreserved := h.not_reserved
    unfold Text.sameIgnoringCase at hreserved
    rw [List.append_cancel_right hsame, beq_self_eq_true] at hreserved
    cases hreserved
  unfold Store.isCorpusName
  rw [hvisible, hreserved, extensionOf?_xml h.ne_empty]
  decide

theorem isCorpusName_suggestionsName : isCorpusName suggestionsName = false := by decide

theorem xml_inj (h : name ++ ".xml" = other ++ ".xml") : name = other :=
  String.append_left_inj ".xml" |>.mp h

theorem xml_ne_tmp (name other : String) : name ++ ".xml" ≠ other ++ ".tmp" := by
  intro heq
  have hlist := congrArg String.toList heq
  rw [String.toList_append, String.toList_append] at hlist
  have hlast := (List.append_inj' hlist (by decide)).2
  exact absurd hlast (by decide)

theorem suggestionsName_eq : suggestionsName = "_Suggestions" ++ ".xml" := by decide

theorem suggestionsPath_eq (s : Store) :
    s.suggestionsPath = join s.root "_Suggestions" ++ ".xml" := by
  rw [suggestionsPath, suggestionsName_eq, join_append _ _ isExtension_xml]

theorem suggestionsTempPath_eq (s : Store) :
    s.suggestionsTempPath = join s.root "_Suggestions" ++ ".tmp" := by
  have hname : "_Suggestions.tmp" = "_Suggestions" ++ ".tmp" := by decide
  rw [suggestionsTempPath, hname, join_append _ _ isExtension_tmp]

end Foresight.Store
