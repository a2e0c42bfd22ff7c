import Foresight.Proofs.Table
import Foresight.Proofs.Text.Encoding
import Foresight.Proofs.Text.Pieces
import Foresight.Records.Document
import Foresight.Records.Entity
import Foresight.Text.Number

/-!
# What a record holds, written and read back

The three ways in which values are put into a document, each with its inverse: a text is escaped
(`unescape?_escape`), a table is written as its names and values with bars between them
(`decodeFields_encodeFields`, as long as none of them has a bar in it), and a number as its digits
(`natural?_toString`).
-/

namespace Foresight

namespace Records

/-! ## Escaping -/

/-- A character is read back from the way it is written, whatever stands behind it. -/
theorem unescapeOnto_escapeChar (read rest : List Char) (c : Char) :
    unescapeOnto read none (escapeChar c ++ rest) = unescapeOnto (c :: read) none rest := by
  unfold escapeChar
  split
  · simp [unescapeOnto, entity?, namedEntity?]
  · simp [unescapeOnto, entity?, namedEntity?]
  · simp [unescapeOnto, entity?, namedEntity?]
  · simp [unescapeOnto, entity?, namedEntity?]
  · simp [unescapeOnto, entity?, namedEntity?]
  · rename_i hamp _ _
    rw [List.singleton_append, unescapeOnto, if_neg hamp]

theorem unescapeOnto_escape (read text : List Char) :
    unescapeOnto read none (text.flatMap escapeChar) = some (read.reverse ++ text) := by
  induction text generalizing read with
  | nil => simp [unescapeOnto]
  | cons c rest ih =>
    rw [List.flatMap_cons, unescapeOnto_escapeChar, ih, List.reverse_cons, List.append_assoc,
      List.singleton_append]

/-- Escaped text stands for the text. -/
theorem unescape?_escape (text : String) : unescape? (escape text) = some text := by
  rw [unescape?, escape, String.toList_ofList, unescapeOnto_escape, List.reverse_nil,
    List.nil_append, Option.map_some, String.ofList_toList]

theorem not_mem_escapeChar (c : Char) : '<' ∉ escapeChar c ∧ '>' ∉ escapeChar c ∧
    '\'' ∉ escapeChar c ∧ '"' ∉ escapeChar c := by
  unfold escapeChar
  split
  · decide
  · decide
  · decide
  · decide
  · decide
  · simp_all [eq_comm]

/-- Escaped text is free of what ends a text, a tag or a quoted value. -/
theorem not_mem_escape (text : String) : '<' ∉ (escape text).toList ∧ '>' ∉ (escape text).toList ∧
    '\'' ∉ (escape text).toList ∧ '"' ∉ (escape text).toList := by
  simp only [escape, String.toList_ofList, List.mem_flatMap, not_exists, not_and]
  exact ⟨fun c _ => (not_mem_escapeChar c).1, fun c _ => (not_mem_escapeChar c).2.1,
    fun c _ => (not_mem_escapeChar c).2.2.1, fun c _ => (not_mem_escapeChar c).2.2.2⟩

/-! ## Fields -/

/-- No name and no value of a table has a bar in it. -/
def IsBarFree (fields : Fields) : Prop :=
  fields.All fun name value => '|' ∉ name.toList ∧ '|' ∉ value.toList

instance (fields : Fields) : Decidable (IsBarFree fields) :=
  inferInstanceAs (Decidable (Table.All _ _))

/-- How an entry is written behind others. -/
def barText (entry : String × String) : List Char :=
  '|' :: entry.1.toList ++ '|' :: entry.2.toList

theorem toList_encodeOnto {written : String} (h : written ≠ "") (entries : List (String × String)) :
    (entries.foldl (fun written (name, value) =>
      (if written.isEmpty then written else written ++ "|") ++ name ++ "|" ++ value)
      written).toList = written.toList ++ entries.flatMap barText := by
  induction entries generalizing written with
  | nil => simp
  | cons entry rest ih =>
    obtain ⟨name, value⟩ := entry
    have hne : written ++ "|" ++ name ++ "|" ++ value ≠ "" := by
      simp [String.append_eq_empty_iff]
    have hempty : written.isEmpty = false := by simp [h]
    simp only [List.foldl_cons, hempty, Bool.false_eq_true, if_false]
    rw [ih hne]
    simp [barText, String.toList_append]

/-- The first entry is written without the bar in front of it. -/
theorem toList_encodeFields (fields : Fields) :
    (encodeFields fields).toList = (fields.entries.flatMap barText).drop 1 := by
  unfold encodeFields
  cases fields.entries with
  | nil => rfl
  | cons entry rest =>
    obtain ⟨name, value⟩ := entry
    have hne : name ++ "|" ++ value ≠ "" := by simp [String.append_eq_empty_iff]
    have hstart : (if "".isEmpty then "" else "" ++ "|") ++ name ++ "|" ++ value =
        name ++ "|" ++ value := by simp
    rw [List.foldl_cons]
    dsimp only
    rw [hstart]
    exact (toList_encodeOnto hne rest).trans (by simp [barText, String.toList_append])

theorem pieces_barText {entries : List (String × String)} {piece : List Char}
    (hpiece : '|' ∉ piece)
    (h : ∀ entry ∈ entries, '|' ∉ entry.1.toList ∧ '|' ∉ entry.2.toList) :
    Text.pieces (· == '|') (piece ++ entries.flatMap barText) =
      piece :: entries.flatMap fun entry => [entry.1.toList, entry.2.toList] := by
  have hno : ∀ {text : List Char}, '|' ∉ text → ∀ c ∈ text, (c == '|') = false := fun h c hc =>
    beq_false_of_ne fun heq => h (heq ▸ hc)
  induction entries generalizing piece with
  | nil =>
    rw [List.flatMap_nil, List.flatMap_nil, List.append_nil, Text.pieces_of_forall (hno hpiece)]
  | cons entry rest ih =>
    obtain ⟨⟨hname, hvalue⟩, hrest⟩ := List.forall_mem_cons.mp h
    rw [List.flatMap_cons, List.flatMap_cons, barText, List.append_assoc, List.cons_append,
      Text.pieces_append_cons (hno hpiece) (beq_self_eq_true '|'), List.cons_append,
      Text.pieces_append_cons (hno hname) (beq_self_eq_true '|'), ih hvalue hrest]
    rfl

theorem pairUp_flatMap {α : Type} (entries : List (α × α)) :
    pairUp (entries.flatMap fun entry => [entry.1, entry.2]) = entries := by
  induction entries with
  | nil => rfl
  | cons entry rest ih =>
    exact congrArg (entry :: ·) ih

/-- A table without bars is read back from its text. -/
theorem decodeFields_encodeFields {fields : Fields} (h : IsBarFree fields) :
    decodeFields (encodeFields fields) = fields := by
  have hpieces : pairUp (Text.splitAt '|' (encodeFields fields)) = fields.entries := by
    unfold Text.splitAt
    rw [toList_encodeFields]
    cases hentries : fields.entries with
    | nil => rfl
    | cons entry rest =>
      have hfree : ∀ e ∈ entry :: rest, '|' ∉ e.1.toList ∧ '|' ∉ e.2.toList := fun e he =>
        h e (hentries ▸ he)
      have hall := pieces_barText (List.not_mem_nil (a := '|')) hfree
      rw [List.nil_append, List.flatMap_cons, barText, List.cons_append, List.cons_append,
        Text.pieces, if_pos (beq_self_eq_true '|')] at hall
      rw [List.flatMap_cons, barText, List.cons_append, List.cons_append, List.drop_succ_cons,
        List.drop_zero, (List.cons.inj hall).2, List.map_flatMap]
      simp only [List.map_cons, List.map_nil, String.ofList_toList]
      exact pairUp_flatMap _
  rw [decodeFields, hpieces, Table.ofList_entries]

/-- Whoever is in a pair was in the list. -/
theorem mem_of_mem_pairUp {α : Type} {items : List α} {pair : α × α} (h : pair ∈ pairUp items) :
    pair.1 ∈ items ∧ pair.2 ∈ items := by
  fun_induction pairUp items with
  | case1 a b rest ih =>
    rcases List.mem_cons.mp h with rfl | h
    · simp
    · obtain ⟨hfst, hsnd⟩ := ih h
      exact ⟨by simp [hfst], by simp [hsnd]⟩
  | case2 => cases h

/-- Whatever a text says, no bars come out of it. -/
theorem isBarFree_decodeFields (text : String) : IsBarFree (decodeFields text) := by
  have hpairs : ∀ pair ∈ pairUp (Text.splitAt '|' text),
      '|' ∉ pair.1.toList ∧ '|' ∉ pair.2.toList := by
    intro pair hpair
    obtain ⟨hname, hvalue⟩ := mem_of_mem_pairUp hpair
    exact ⟨Text.not_mem_of_mem_splitAt hname, Text.not_mem_of_mem_splitAt hvalue⟩
  exact Table.all_foldl (fun _ _ ht hpair => ht.insert hpair) hpairs Table.all_empty

/-- The tables that are read back from their text are those without bars. -/
theorem decodeFields_encodeFields_iff (fields : Fields) :
    decodeFields (encodeFields fields) = fields ↔ IsBarFree fields := by
  constructor
  · intro h
    rw [← h]
    exact isBarFree_decodeFields _
  · exact decodeFields_encodeFields

/-! ## Numbers -/

theorem digit?_of_isDigit {c : Char} (h : c.isDigit = true) :
    Text.digit? 10 c = some (c.toNat - '0'.toNat) := by
  have hle : '0' ≤ c ∧ c ≤ '9' := by
    simpa [Char.isDigit, Char.le_def] using h
  have hlt : c.toNat - 48 < 10 := by
    have h9 : c.toNat ≤ 57 := hle.2
    omega
  simp [Text.digit?, hle, hlt]

theorem digits?_of_isDigit {digits : List Char} (hne : digits ≠ [])
    (h : ∀ c ∈ digits, c.isDigit = true) :
    Text.digits? 10 digits = some (Nat.ofDigitChars 10 digits 0) := by
  have hfold : ∀ n, digits.foldlM (fun n c => (Text.digit? 10 c).map (n * 10 + ·)) n =
      some (Nat.ofDigitChars 10 digits n) := by
    clear hne
    induction digits with
    | nil => simp
    | cons c rest ih =>
      obtain ⟨hc, hrest⟩ := List.forall_mem_cons.mp h
      intro n
      rw [List.foldlM_cons, digit?_of_isDigit hc, Option.map_some, Option.bind_eq_bind,
        Option.bind_some, ih hrest, Nat.ofDigitChars_cons, Nat.mul_comm]
  cases digits with
  | nil => exact absurd rfl hne
  | cons c rest => exact hfold 0

theorem trim_of_forall {text : String} (h : ∀ c ∈ text.toList, Text.isBlank c = false) :
    Text.trim text = text := by
  have hdrop : ∀ {l : List Char}, (∀ c ∈ l, Text.isBlank c = false) →
      l.dropWhile Text.isBlank = l := by
    intro l hl
    cases l with
    | nil => rfl
    | cons c rest => rw [List.dropWhile_cons_of_neg (by simp [hl c List.mem_cons_self])]
  have hstart : Text.trimStart text = text := by
    rw [Text.trimStart, hdrop h, String.ofList_toList]
  rw [Text.trim, hstart, Text.trimEnd, hdrop fun c hc => h c (List.mem_reverse.mp hc),
    List.reverse_reverse, String.ofList_toList]

theorem isBlank_of_isDigit {c : Char} (h : c.isDigit = true) : Text.isBlank c = false := by
  have hle : '0' ≤ c ∧ c ≤ '9' := by
    simpa [Char.isDigit, Char.le_def] using h
  have h0 : 48 ≤ c.toNat := hle.1
  have h9 : c.toNat ≤ 57 := hle.2
  simp only [Text.isBlank, Bool.or_eq_false_iff, Bool.and_eq_false_iff, decide_eq_false_iff_not,
    beq_eq_false_iff_ne]
  omega

/-- A number of 64 bits is read back from its digits. -/
theorem natural?_toString {n : Nat} (h : n < UInt64.size) :
    Text.natural? (Text.trim (toString n)) = some n := by
  have hlist : (toString n).toList = Nat.toDigits 10 n := by
    rw [Nat.toString_eq_repr, Nat.toList_repr]
  have hdigit : ∀ c ∈ Nat.toDigits 10 n, c.isDigit = true := fun c hc =>
    Nat.isDigit_of_mem_toDigits (by decide) (by decide) hc
  rw [trim_of_forall fun c hc => isBlank_of_isDigit (hdigit c (hlist ▸ hc))]
  unfold Text.natural?
  rw [hlist]
  split
  · rename_i rest heq
    have hplus := hdigit '+' (heq ▸ List.mem_cons_self)
    exact absurd hplus (by decide)
  · dsimp only
    rw [digits?_of_isDigit Nat.toDigits_ne_nil hdigit, Nat.ofDigitChars_ten_toDigits]
    exact Option.filter_eq_some_iff.mpr ⟨rfl, decide_eq_true h⟩

end Records

end Foresight
