import Foresight.Proofs.Ranking.Published
import Foresight.Proofs.Store.Codec
import Foresight.Proofs.Store.Naming
import Foresight.Proofs.Store.Saving

/-!
# What the data directory holds

A data directory holds some corpora (`Holds`) if the document of each lies under the solution's name
and no other corpus is there. That is all that a build reads of it (`Holds.observations_eq`). Saving
a corpus changes what is held for that solution and for no other (`Holds.save`); saving the
suggestions changes none of it (`Holds.saveSuggestions`).
-/

namespace Foresight

open Records

/-- The observations of some corpora together, in the order of their files' names. -/
def observationsOf (corpora : Table (List Observation)) : List Observation :=
  (Ranking.sortBy (fun corpus => corpus.1 ++ ".xml") corpora.entries).flatMap (·.2)

namespace Store

variable {s : Store} {d d' : Disk} {location : Location} {stem : String} {content : ByteArray}

/-- What is saved under a name in a directory, told by locations. -/
theorem get?_saves (hleads : d.Leads s.root location) (hstem : '/' ∉ stem.toList)
    (h : Saves d d' (Path.join s.root stem) content) (l : Location) :
    d'.get? l = if l = location ++ [stem ++ ".xml"] then some (.file content)
      else if l = location ++ [stem ++ ".tmp"] then none else d.get? l := by
  obtain ⟨temp, target, htemp, htarget, hget⟩ := h.places
  rw [← Path.join_append _ _ Path.isExtension_tmp] at htemp
  rw [← Path.join_append _ _ Path.isExtension_xml] at htarget
  obtain rfl := htemp.unique (hleads.names (isEntryName_tmp hstem) htemp.whole)
  obtain rfl := htarget.unique (hleads.names (isEntryName_xml hstem) htarget.whole)
  exact hget l

/-- Any other file of the directory is read as before. -/
theorem read_saves (hleads : d.Leads s.root location) (hstem : '/' ∉ stem.toList)
    (h : Saves d d' (Path.join s.root stem) content) {name : String}
    (hname : Disk.IsEntryName name) (hxml : name ≠ stem ++ ".xml") (htmp : name ≠ stem ++ ".tmp")
    {other : ByteArray} :
    d'.read (Path.join s.root name) = .ok other ↔ d.read (Path.join s.root name) = .ok other := by
  have hne : ∀ file, name ≠ file → location ++ [name] ≠ location ++ [file] := fun file hfile heq =>
    hfile (List.cons_eq_cons.mp (List.append_cancel_left heq)).1
  rw [(hleads.keeps h.keeps).read_eq_ok_iff hname, hleads.read_eq_ok_iff hname,
    get?_saves hleads hstem h, if_neg (hne _ hxml), if_neg (hne _ htmp)]

/-- A data directory that holds these corpora and no others. -/
structure Holds (s : Store) (d : Disk) (location : Location)
    (corpora : Table (List Observation)) : Prop where
  leads : d.Leads s.root location
  held : ∀ solution observations, corpora.get? solution = some observations →
    IsSolutionName solution ∧ (∀ o ∈ observations, IsBarFree o.fields) ∧
      d.read (s.corpusPath solution) = .ok (Corpus.document observations).toUTF8
  nothing_else : ∀ name, isCorpusName name = true → (d.get? (location ++ [name])).isSome →
    ∃ solution ∈ corpora.names, name = solution ++ ".xml"

namespace Holds

variable {corpora : Table (List Observation)} {solution : String} {observations : List Observation}

theorem readCorpus (h : Holds s d location corpora)
    (hget : corpora.get? solution = some observations) :
    readCorpus (s.corpusPath solution) d = .ok observations := by
  obtain ⟨-, hbars, hread⟩ := h.held solution observations hget
  exact readCorpus_document hbars hread

/-- What an update of a solution starts from: what is held for it, or nothing. -/
theorem corpusOrEmpty_eq (h : Holds s d location corpora) (hname : IsSolutionName solution) :
    corpusOrEmpty (s.corpusPath solution) d = (corpora.get? solution).getD [] := by
  cases hget : corpora.get? solution with
  | some observations =>
    obtain ⟨-, hbars, hread⟩ := h.held solution observations hget
    exact corpusOrEmpty_document hbars hread
  | none =>
    unfold corpusOrEmpty
    cases hread : Store.readCorpus (s.corpusPath solution) d with
    | error failure => rfl
    | ok observations =>
      -- A corpus that can be read is one of those that are held.
      unfold Store.readCorpus Outcome.ofAnswer at hread
      cases hfile : d.read (s.corpusPath solution) with
      | error cause =>
        rw [hfile] at hread
        cases hread
      | ok content =>
        have hentry := ((h.leads.read_eq_ok_iff (isEntryName_xml hname.no_separator)).mp hfile).2
        obtain ⟨held, hheld, hsame⟩ := h.nothing_else _ hname.isCorpusName (by rw [hentry]; rfl)
        obtain rfl := xml_inj hsame
        exact absurd hheld (corpora.get?_eq_none_iff.mp hget)

/-- The corpora that a build finds are those that are held. -/
theorem corpusNames_eq (h : Holds s d location corpora) : s.corpusNames d =
    (Ranking.sortBy (fun corpus => corpus.1 ++ ".xml") corpora.entries).map (·.1 ++ ".xml") := by
  have hnames : s.corpusNames d = (d.namesIn location).filter fun name =>
      isCorpusName name && d.isFile (Path.join s.root name) := by
    unfold corpusNames
    rw [h.leads.locate]
    dsimp only
    rw [h.leads.directory]
  have hperm := (Ranking.sortBy_perm (fun corpus : String × List Observation =>
    corpus.1 ++ ".xml") corpora.entries).map (·.1 ++ ".xml")
  have hentries : (corpora.entries.map (·.1 ++ ".xml")).Nodup := by
    have hnodup := corpora.nodup.map (f := (· ++ ".xml")) fun _ _ => xml_inj
    rwa [List.map_map] at hnodup
  have hsame : (s.corpusNames d).Perm ((Ranking.sortBy (fun corpus => corpus.1 ++ ".xml")
      corpora.entries).map (·.1 ++ ".xml")) := by
    refine (List.perm_ext_iff_of_nodup ?_ (hperm.nodup_iff.mpr hentries)).mpr fun name => ?_
    · rw [hnames]
      exact (Disk.pairwise_namesIn.imp ne_of_lt).filter _
    · rw [hperm.mem_iff, hnames, List.mem_filter, Disk.mem_namesIn, Bool.and_eq_true,
        Disk.isFile_iff, List.mem_map]
      constructor
      · rintro ⟨hthere, hcorpus, -⟩
        obtain ⟨solution, hsolution, rfl⟩ := h.nothing_else name hcorpus hthere
        obtain ⟨entry, hentry, rfl⟩ := List.mem_map.mp hsolution
        exact ⟨entry, hentry, rfl⟩
      · rintro ⟨⟨solution, observations⟩, hentry, rfl⟩
        obtain ⟨hname, -, hread⟩ :=
          h.held solution observations (corpora.get?_eq_some_iff.mpr hentry)
        have hthere := ((h.leads.read_eq_ok_iff (isEntryName_xml hname.no_separator)).mp hread).2
        exact ⟨by rw [hthere]; rfl, hname.isCorpusName, _, hread⟩
  have hsorted : ((Ranking.sortBy (fun corpus => corpus.1 ++ ".xml") corpora.entries).map
      (·.1 ++ ".xml")).Pairwise (· ≤ ·) :=
    List.pairwise_map.mpr (Ranking.pairwise_sortBy _ corpora.entries)
  refine hsame.eq_of_pairwise (fun a b _ _ hab hba => le_antisymm hab hba) ?_ hsorted
  rw [hnames]
  exact (Disk.pairwise_namesIn.imp le_of_lt).filter _

/-- All that a build reads is what is held. -/
theorem observations_eq (h : Holds s d location corpora) :
    s.observations d = observationsOf corpora := by
  unfold observations observationsOf
  rw [h.corpusNames_eq, List.flatMap_map]
  refine List.flatMap_congr fun corpus hcorpus => ?_
  have hentry : corpus ∈ corpora.entries :=
    (Ranking.sortBy_perm _ corpora.entries).mem_iff.mp hcorpus
  obtain ⟨-, hbars, hread⟩ := h.held corpus.1 corpus.2 (corpora.get?_eq_some_iff.mpr hentry)
  exact corpusOrEmpty_document hbars hread

/-- Saving a corpus changes what is held for its solution, and for no other. -/
theorem save (h : Holds s d location corpora) (hname : IsSolutionName solution)
    (hbars : ∀ o ∈ observations, IsBarFree o.fields)
    (hsaves : Saves d d' (Path.join s.root solution) (Corpus.document observations).toUTF8) :
    Holds s d' location (corpora.insert solution observations) where
  leads := h.leads.keeps hsaves.keeps
  held other kept hget := by
    rw [Table.get?_insert] at hget
    split at hget
    · rename_i hother
      cases hget
      refine ⟨hother ▸ hname, hbars, ?_⟩
      rw [hother]
      have hread := hsaves.read
      rwa [← Path.join_append _ _ Path.isExtension_xml] at hread
    · rename_i hother
      obtain ⟨hname', hbars', hread⟩ := h.held other kept hget
      refine ⟨hname', hbars', ?_⟩
      refine (read_saves h.leads hname.no_separator hsaves
        (isEntryName_xml hname'.no_separator) (fun heq => hother (xml_inj heq))
        (xml_ne_tmp _ _)).mpr hread
  nothing_else name hcorpus hthere := by
    rw [get?_saves h.leads hname.no_separator hsaves] at hthere
    split at hthere
    · rename_i hlocation
      have hname' := (List.cons_eq_cons.mp (List.append_cancel_left hlocation)).1
      exact ⟨solution, corpora.mem_names_insert.mpr (.inl rfl), hname'⟩
    · split at hthere
      · cases hthere
      · obtain ⟨other, hother, hname'⟩ := h.nothing_else name hcorpus hthere
        exact ⟨other, corpora.mem_names_insert.mpr (.inr hother), hname'⟩

/-- Saving the suggestions leaves the corpora alone. -/
theorem saveSuggestions (h : Holds s d location corpora)
    (hsaves : Saves d d' (Path.join s.root "_Suggestions") content) :
    Holds s d' location corpora where
  leads := h.leads.keeps hsaves.keeps
  held solution observations hget := by
    obtain ⟨hname, hbars, hread⟩ := h.held solution observations hget
    have hcorpus := hname.isCorpusName
    refine ⟨hname, hbars, (read_saves h.leads (by decide) hsaves
      (isEntryName_xml hname.no_separator) ?_ (xml_ne_tmp _ _)).mpr hread⟩
    intro heq
    rw [heq] at hcorpus
    exact absurd hcorpus (by decide)
  nothing_else name hcorpus hthere := by
    rw [get?_saves h.leads (by decide) hsaves] at hthere
    split at hthere
    · rename_i hlocation
      have hname := (List.cons_eq_cons.mp (List.append_cancel_left hlocation)).1
      rw [hname] at hcorpus
      exact absurd hcorpus (by decide)
    · split at hthere
      · cases hthere
      · exact h.nothing_else name hcorpus hthere

end Holds

/-! ## Published suggestions -/

theorem published_congr (h : ∀ content, d.read s.suggestionsPath = .ok content ↔
    d'.read s.suggestionsPath = .ok content) : s.published d = s.published d' := by
  unfold published
  cases hd : d.read s.suggestionsPath with
  | ok content => rw [(h content).mp hd]
  | error cause =>
    cases hd' : d'.read s.suggestionsPath with
    | ok content =>
      rw [(h content).mpr hd'] at hd
      cases hd
    | error cause' => rfl

/-- Saving a corpus leaves the suggestions alone. -/
theorem published_save {solution : String} (hleads : d.Leads s.root location)
    (hname : IsSolutionName solution) (h : Saves d d' (Path.join s.root solution) content) :
    s.published d' = s.published d := by
  have hentry : Disk.IsEntryName suggestionsName :=
    suggestionsName_eq ▸ isEntryName_xml (by decide)
  refine published_congr fun other => read_saves hleads hname.no_separator h hentry ?_ ?_
  · intro heq
    have hcorpus := hname.isCorpusName
    rw [← heq, isCorpusName_suggestionsName] at hcorpus
    cases hcorpus
  · rw [suggestionsName_eq]
    exact xml_ne_tmp _ _

/-- Saved suggestions are the ones that are published from then on. -/
theorem published_saveSuggestions {suggestions : List Suggestion}
    (hwritable : ∀ t ∈ suggestions,
      IsBarFree t.fields ∧ t.count < UInt64.size ∧ t.percentage < UInt64.size)
    (h : Saves d d' (Path.join s.root "_Suggestions") (suggestionsDocument suggestions).toUTF8) :
    s.published d' = suggestions := by
  have hread := h.read
  rw [← Path.join_append _ _ Path.isExtension_xml, ← suggestionsName_eq] at hread
  unfold published suggestionsPath
  rw [hread]
  dsimp only
  rw [readSuggestions_document hwritable]
  rfl

end Store

end Foresight
