import Foresight.Proofs.Records.RoundTrip
import Foresight.Store.Publication

/-!
# Corpora and suggestions read back

Both kinds of document are read back as what they were written from, as long as no name and no value
of a table has a bar in it, and numbers are numbers of 64 bits.
-/

namespace Foresight

open Records

/-- An attribute is found as it was written; one that was left out reads as empty. -/
theorem Records.field_written {attributes : List (String × String)} (optional : List String)
    (h : (attributes.map Prod.fst).Nodup) {name value : String} (ha : (name, value) ∈ attributes)
    (text : String) :
    (Record.mk (.ofList (writtenAttributes attributes optional)) text).field name = value := by
  have hnodup : ((writtenAttributes attributes optional).map Prod.fst).Nodup :=
    h.sublist (List.filter_sublist.map Prod.fst)
  unfold Record.field Table.get?
  dsimp only
  rw [Table.entries_ofList hnodup]
  by_cases hmem : (name, value) ∈ writtenAttributes attributes optional
  · rw [Table.lookup_of_mem hnodup hmem]
    rfl
  · -- No other attribute has the name of the one that was left out.
    have hname : name ∉ (writtenAttributes attributes optional).map Prod.fst := by
      intro hname
      obtain ⟨b, hb, hab⟩ := List.mem_map.mp hname
      have hsame : b = (name, value) := List.inj_on_of_nodup_map h (List.mem_filter.mp hb).1 ha hab
      exact hmem (hsame ▸ hb)
    have hempty : value = "" := by
      by_contra hne
      exact hmem (List.mem_filter.mpr ⟨ha, by simp [hne]⟩)
    rw [Table.lookup_of_not_mem hname, hempty]
    rfl

/-- A written number is read back. -/
theorem Records.number_written {attributes : List (String × String)} {optional : List String}
    (h : (attributes.map Prod.fst).Nodup) {name : String} {n : Nat}
    (ha : (name, toString n) ∈ writtenAttributes attributes optional) (hn : n < UInt64.size)
    (text : String) (default_ : Nat) :
    (Record.mk (.ofList (writtenAttributes attributes optional)) text).number name default_ =
      n := by
  have hnodup : ((writtenAttributes attributes optional).map Prod.fst).Nodup :=
    h.sublist (List.filter_sublist.map Prod.fst)
  have hlookup := Table.lookup_of_mem hnodup ha
  unfold Record.number Table.get?
  dsimp only
  rw [Table.entries_ofList hnodup, hlookup, Option.bind_some, natural?_toString hn]
  rfl

/-- A document of records with the same attributes is read back. -/
theorem Records.read_written {α : Type} {items : List α} {attributes : α → List (String × String)}
    {text : α → String} (optional : List String)
    (hname : ∀ a ∈ items, ∀ entry ∈ attributes a, IsAttributeName entry.1)
    (hnodup : ∀ a ∈ items, ((attributes a).map Prod.fst).Nodup) :
    Records.read (documentText (items.map fun a =>
      recordText (writtenAttributes (attributes a) optional) (text a))).toUTF8 =
        .ok (items.map fun a => ⟨.ofList (writtenAttributes (attributes a) optional), text a⟩) := by
  have hall : ∀ r ∈ items.map fun a => (writtenAttributes (attributes a) optional, text a),
      (∀ entry ∈ r.1, IsAttributeName entry.1) ∧ (r.1.map Prod.fst).Nodup := by
    intro r hr
    obtain ⟨a, ha, rfl⟩ := List.mem_map.mp hr
    exact ⟨fun entry hentry => hname a ha entry (List.mem_filter.mp hentry).1,
      (hnodup a ha).sublist (List.filter_sublist.map Prod.fst)⟩
  have hread := read_documentText hall
  rwa [List.map_map, List.map_map] at hread

namespace Corpus

/-- The attributes of an observation. -/
def attributes (o : Observation) : List (String × String) :=
  [("k", o.key), ("f", o.file), ("v", encodeFields o.fields)]

/-- What is left of an observation that has been written and read. -/
def reread (o : Observation) : Observation :=
  { o with fields := decodeFields (encodeFields o.fields) }

/-- A corpus is read back observation by observation, whatever they are. -/
theorem read_document_reread (observations : List Observation) :
    Corpus.read (document observations).toUTF8 = .ok (observations.map reread) := by
  have hname : ∀ o ∈ observations, ∀ entry ∈ attributes o, IsAttributeName entry.1 := fun o _ => by
    simp only [attributes, List.forall_mem_cons]
    exact ⟨by decide, by decide, by decide, fun _ h => absurd h List.not_mem_nil⟩
  have hnodup : ∀ o : Observation, ((attributes o).map Prod.fst).Nodup := fun o => by
    simp [attributes]
  have hread : Records.read (document observations).toUTF8 = .ok (observations.map fun o =>
      ⟨.ofList (writtenAttributes (attributes o) ["v"]), o.template⟩) :=
    Records.read_written ["v"] hname fun o _ => hnodup o
  unfold Corpus.read
  rw [hread]
  refine congrArg Except.ok ?_
  rw [List.map_map]
  refine List.map_congr_left fun o _ => ?_
  have hmem : ("k", o.key) ∈ attributes o ∧ ("f", o.file) ∈ attributes o ∧
      ("v", encodeFields o.fields) ∈ attributes o := by
    simp [attributes]
  have hk := Records.field_written ["v"] (hnodup o) hmem.1 o.template
  have hf := Records.field_written ["v"] (hnodup o) hmem.2.1 o.template
  have hv := Records.field_written ["v"] (hnodup o) hmem.2.2 o.template
  simp only [Function.comp_apply, observationOf, hk, hf, hv, reread]

/-- Without bars, everything is left. -/
theorem map_reread {observations : List Observation} (h : ∀ o ∈ observations, IsBarFree o.fields) :
    observations.map reread = observations := by
  refine (List.map_congr_left fun o ho => ?_).trans (List.map_id _)
  rw [reread, decodeFields_encodeFields (h o ho), id]

/-- A corpus is read back as it was written. -/
theorem read_document {observations : List Observation}
    (h : ∀ o ∈ observations, IsBarFree o.fields) :
    Corpus.read (document observations).toUTF8 = .ok observations := by
  rw [read_document_reread, map_reread h]

/-- Observations without bars in their fields are read back from their corpus, whatever else is in
them and however many they are. As for the fields, bars are all that stands in the way: a table is
read back from its text exactly if it has none. -/
theorem corpus_round_trip :
    (∀ observations : List Observation, (∀ o ∈ observations, IsBarFree o.fields) →
      Corpus.read (document observations).toUTF8 = .ok observations) ∧
    ∀ fields : Fields, decodeFields (encodeFields fields) = fields ↔ IsBarFree fields :=
  ⟨fun _ h => read_document h, decodeFields_encodeFields_iff⟩

/-- Observations that look like markup, with nothing where something is expected. -/
def markupLike : List Observation :=
  [⟨"After \"x\" <y>", "<App>/a.cs", "\n  <i k=\"\">&lt;</i>", .ofList [("", "")]⟩,
    ⟨"", "", "", .empty⟩, ⟨"k", "f", " \t\n ", .ofList [("b", "&"), ("a", "<>\"")]⟩]

theorem corpus_round_trip_markupLike :
    (∀ o ∈ markupLike, IsBarFree o.fields) ∧
      Corpus.read (document markupLike).toUTF8 = .ok markupLike :=
  have h : ∀ o ∈ markupLike, IsBarFree o.fields := by decide
  ⟨h, corpus_round_trip.1 _ h⟩

end Corpus

namespace Store

/-- The attributes of a suggestion. -/
def attributes (s : Suggestion) : List (String × String) :=
  [("k", s.key), ("c", toString s.count), ("v", encodeFields s.fields),
    ("p", toString s.percentage)]

/-- Published suggestions are read back as they were written. -/
theorem readSuggestions_document {suggestions : List Suggestion}
    (h : ∀ s ∈ suggestions,
      IsBarFree s.fields ∧ s.count < UInt64.size ∧ s.percentage < UInt64.size) :
    readSuggestions (suggestionsDocument suggestions).toUTF8 = .ok suggestions := by
  have hname : ∀ s ∈ suggestions, ∀ entry ∈ attributes s, IsAttributeName entry.1 := fun s _ => by
    simp only [attributes, List.forall_mem_cons]
    exact ⟨by decide, by decide, by decide, by decide, fun _ h => absurd h List.not_mem_nil⟩
  have hnodup : ∀ s : Suggestion, ((attributes s).map Prod.fst).Nodup := fun s => by
    simp [attributes]
  have hread : Records.read (suggestionsDocument suggestions).toUTF8 = .ok (suggestions.map fun s =>
      ⟨.ofList (writtenAttributes (attributes s) ["v"]), s.template⟩) :=
    Records.read_written ["v"] hname fun s _ => hnodup s
  unfold readSuggestions
  rw [hread]
  refine congrArg Except.ok ?_
  rw [List.map_map]
  refine (List.map_congr_left fun s hs => ?_).trans (List.map_id _)
  obtain ⟨hfree, hcount, hpercentage⟩ := h s hs
  have hmem : ("k", s.key) ∈ attributes s ∧ ("v", encodeFields s.fields) ∈ attributes s := by
    simp [attributes]
  have hnumber : ("c", toString s.count) ∈ writtenAttributes (attributes s) ["v"] ∧
      ("p", toString s.percentage) ∈ writtenAttributes (attributes s) ["v"] := by
    simp [writtenAttributes, attributes]
  have hk := Records.field_written ["v"] (hnodup s) hmem.1 s.template
  have hv := Records.field_written ["v"] (hnodup s) hmem.2 s.template
  have hc := Records.number_written (hnodup s) hnumber.1 hcount s.template 0
  have hp := Records.number_written (hnodup s) hnumber.2 hpercentage s.template 0
  simp only [Function.comp_apply, suggestionOf, hk, hv, hc, hp, decodeFields_encodeFields hfree, id]

/-! ## Corpora on a disk

A corpus that lies where it is looked for is read strictly and leniently alike. -/

theorem readCorpus_reread {path : String} {d : Disk} {observations : List Observation}
    (h : d.read path = .ok (Corpus.document observations).toUTF8) :
    readCorpus path d = .ok (observations.map Corpus.reread) := by
  unfold readCorpus Outcome.ofAnswer
  rw [h]
  change Outcome.context path (Corpus.read (Corpus.document observations).toUTF8) = _
  rw [Corpus.read_document_reread]
  rfl

theorem readCorpus_document {path : String} {d : Disk} {observations : List Observation}
    (hbars : ∀ o ∈ observations, IsBarFree o.fields)
    (h : d.read path = .ok (Corpus.document observations).toUTF8) :
    readCorpus path d = .ok observations := by
  rw [readCorpus_reread h, Corpus.map_reread hbars]

theorem corpusOrEmpty_document {path : String} {d : Disk} {observations : List Observation}
    (hbars : ∀ o ∈ observations, IsBarFree o.fields)
    (h : d.read path = .ok (Corpus.document observations).toUTF8) :
    corpusOrEmpty path d = observations := by
  unfold corpusOrEmpty
  rw [readCorpus_document hbars h]
  rfl

end Store

end Foresight
