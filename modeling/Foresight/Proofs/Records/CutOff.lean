import Mathlib.Data.List.TakeWhile
import Foresight.Proofs.Records.RoundTrip
import Foresight.Proofs.Text.Truncated

/-!
# Documents that are cut off

The reader ends well only if each element that was opened has been closed under its name
(`count_of_ofTokens`). It is enough to count, then. A record that is cut off somewhere opens at
least what it closes (`balance_record`), and so do whole records with what is left of the end of
the document behind them (`balance_records`). The root is opened in front of all that, so a document
is refused once its first tag has begun (`not_ok_of_cut`). Only the last bracket is not missed, as
the end of the input closes a tag.
-/

namespace Foresight.Records

open Text

/-! ## Opened and closed elements -/

namespace Token

/-- The tag opens an element of this name. -/
def opens (name : List Glyph) : Token → Bool
  | .open_ other _ => other == name
  | _ => false

/-- The tag closes an element of this name. -/
def closes (name : List Glyph) : Token → Bool
  | .close other => other == name
  | _ => false

end Token

/-- What is read on the way does not matter for the elements that are open. -/
theorem opened_of_bind {α : Type} {x : Outcome α} {f : α → Reading} {opened : List (List Glyph)}
    {r : Reading} (h : (do let a ← x; return f a) = .ok r) (hf : ∀ a, (f a).opened = opened) :
    r.opened = opened := by
  cases x with
  | error e => cases h
  | ok a =>
    cases h
    exact hf a

theorem opened_of_write {r r' : Reading} {text : Outcome String} (h : r.write text = .ok r') :
    r'.opened = r.opened := by
  unfold Reading.write at h
  split at h
  · cases h
    rfl
  · exact opened_of_bind h fun _ => rfl

/-- A step opens and closes what its tag does. -/
theorem count_step {r r' : Reading} {token : Token} (h : r.step token = .ok r')
    (name : List Glyph) :
    r'.opened.count name + (token.closes name).toNat =
      r.opened.count name + (token.opens name).toNat := by
  cases token with
  | text glyphs => rw [opened_of_write h]; rfl
  | rawText glyphs => rw [opened_of_write h]; rfl
  | open_ other attributes =>
    have hopened : r'.opened = other :: r.opened := by
      unfold Reading.step at h
      dsimp only at h
      split at h
      · exact opened_of_bind h fun _ => rfl
      · cases h
        rfl
    rw [hopened, List.count_cons]
    cases hname : other == name <;> simp [Token.opens, Token.closes, hname]
  | selfClosing attributes =>
    have hopened : r'.opened = r.opened := by
      unfold Reading.step at h
      dsimp only at h
      split at h
      · exact opened_of_bind h fun _ => rfl
      · cases h
        rfl
    rw [hopened]
    rfl
  | close other =>
    have hopened : r.opened = other :: r'.opened := by
      unfold Reading.step at h
      dsimp only at h
      split at h
      · cases h
      · rename_i expected opened heq
        split at h
        · rename_i hname
          rw [heq, hname]
          split at h <;> cases h <;> rfl
        · cases h
    rw [hopened, List.count_cons]
    cases hname : other == name <;> simp [Token.opens, Token.closes, hname]
  | skipped =>
    cases h
    rfl
  | fault => cases h

theorem count_foldlM {tokens : List Token} {r r' : Reading}
    (h : tokens.foldlM Reading.step r = .ok r') (name : List Glyph) :
    r'.opened.count name + tokens.countP (Token.closes name) =
      r.opened.count name + tokens.countP (Token.opens name) := by
  induction tokens generalizing r with
  | nil =>
    cases h
    rfl
  | cons token rest ih =>
    rw [List.foldlM_cons] at h
    cases hstep : r.step token with
    | error e => rw [hstep] at h; cases h
    | ok middle =>
      rw [hstep] at h
      have hfirst := count_step hstep name
      have hrest := ih h
      rw [List.countP_cons, List.countP_cons]
      cases hcloses : token.closes name <;> cases hopens : token.opens name <;>
        simp [hcloses, hopens] at hfirst ⊢ <;> omega

/-- In what is read well, each name is closed as often as it is opened. -/
theorem count_of_ofTokens {tokens : List Token} {records : List Record}
    (h : ofTokens tokens = .ok records) (name : List Glyph) :
    tokens.countP (Token.closes name) = tokens.countP (Token.opens name) := by
  unfold ofTokens at h
  cases hsteps : tokens.foldlM Reading.step .start with
  | error e => rw [hsteps] at h; cases h
  | ok r =>
    rw [hsteps] at h
    have hempty : r.opened = [] := by
      have hfinish : r.finish = .ok records := h
      unfold Reading.finish at hfinish
      split at hfinish
      · rename_i hopened
        exact List.isEmpty_iff.mp hopened
      · cases hfinish
    have hcount := count_foldlM hsteps name
    rw [hempty] at hcount
    simpa [Reading.start] using hcount

/-! ## Pieces that are cut off -/

section Pieces

variable {chars more : List Char} {glyphs rest : List Glyph}

/-- At the end of the input, a tag is the last piece whatever it is. -/
theorem tokens_last (h : (tag glyphs).2 = []) :
    tokensOnto [] (.char '<' :: glyphs) = [(tag glyphs).1] := by
  rw [tokensOnto, if_pos (by decide), h, tokensOnto]
  split
  · rename_i hfault
    rw [hfault]
    rfl
  · rfl

/-- Where there is no tag, there is at most text. -/
theorem countP_of_no_tag {p : Token → Bool} (hp : ∀ text, p (.text text) = false)
    (h : ∀ g ∈ glyphs, g.is '<' = false) : (tokensOnto [] glyphs).countP p = 0 := by
  cases glyphs with
  | nil => rw [tokensOnto]; rfl
  | cons g rest =>
    obtain ⟨hg, hrest⟩ := List.forall_mem_cons.mp h
    have hnone : rest.dropWhile (!·.is '<') = [] :=
      List.dropWhile_eq_nil_iff.mpr fun g hg => by rw [hrest g hg]; rfl
    rw [tokensOnto, if_neg (by rw [hg]; exact Bool.false_ne_true), hnone, tokensOnto,
      List.reverse_singleton, List.countP_singleton, hp]
    rfl

theorem countP_text {p : Token → Bool} (hp : ∀ text, p (.text text) = false) (h : '<' ∉ chars)
    (rest : List Glyph) : (tokensOnto [] (shown chars ++ .char '<' :: rest)).countP p =
      (tokensOnto [] (.char '<' :: rest)).countP p := by
  by_cases hempty : chars = []
  · rw [hempty]
    rfl
  · rw [tokens_text hempty h, List.countP_cons_of_neg (by rw [hp]; exact Bool.false_ne_true)]

/-- Text in front of a tag is cut off in the text or in the tag. -/
theorem cut_text (hchars : '<' ∉ chars) (h : Cut (chars ++ '<' :: more) glyphs) :
    (∀ g ∈ glyphs, g.is '<' = false) ∨
      ∃ rest, glyphs = shown chars ++ .char '<' :: rest ∧ Cut more rest := by
  rcases cut_append h with htext | ⟨rest, rfl, htag⟩
  · exact Or.inl (not_is_of_cut htext hchars)
  · rcases cut_cons_ascii (by decide) htag with rfl | ⟨rest, rfl, hmore⟩
    · refine Or.inl fun g hg => ?_
      rw [List.append_nil] at hg
      obtain ⟨c, hc, rfl⟩ := List.mem_map.mp hg
      have hne : '<' ≠ c := fun heq => hchars (heq ▸ hc)
      simp [Glyph.is, hne]
    · exact Or.inr ⟨rest, rfl, hmore⟩

/-- Parts of characters neither open a quote nor close one. -/
theorem quoteAfter_illFormed {part : List Glyph} (quote : Option Char)
    (h : ∀ g ∈ part, g.isWellFormed = false) : quoteAfter quote part = some quote := by
  induction part with
  | nil => cases quote <;> rfl
  | cons g part ih =>
    obtain ⟨hg, hrest⟩ := List.forall_mem_cons.mp h
    cases g with
    | char c => cases hg
    | illFormed bytes => cases quote <;> simpa [quoteAfter, Glyph.is] using ih hrest

/-- A tag that does not end before its bracket goes on where it is cut off. -/
theorem exists_quoteAfter_of_cut {quote : Option Char}
    (h : quoteAfter none (shown chars) = some quote) (hcut : Cut (chars ++ ['>']) glyphs) :
    ∃ quote', quoteAfter none glyphs = some quote' := by
  obtain ⟨kept, d, rest, part, hchars, rfl, hpart⟩ := exists_kept_of_cut hcut
  -- The bracket is the last character, so all that is kept stands before it.
  obtain ⟨between, rfl⟩ : ∃ between, chars = kept ++ between := by
    rcases List.append_eq_append_iff.mp hchars with ⟨between, rfl, hend⟩ | ⟨between, rfl, -⟩
    · cases between with
      | nil => exact ⟨[], by simp⟩
      | cons e between => simp at hend
    · exact ⟨between, rfl⟩
  rw [shown_append, quoteAfter_append] at h
  obtain ⟨quote', hkept, -⟩ := Option.bind_eq_some_iff.mp h
  have hkept' : quoteAfter none (kept.map Glyph.char) = some quote' := hkept
  exact ⟨quote', by
    rw [quoteAfter_append, hkept', Option.bind_some, quoteAfter_illFormed quote' hpart]⟩

/-- A start tag that is cut off closes nothing. -/
theorem countP_closes_start {attributes : List (String × String)}
    (h : ∀ a ∈ attributes, IsAttributeName a.1)
    (hcut : Cut ('i' :: attributes.flatMap attributeChars ++ ['>']) glyphs) (name : List Glyph) :
    (tokensOnto [] (.char '<' :: glyphs)).countP (Token.closes name) = 0 := by
  have hstart : ∀ content, (startTag content).closes name = false := by
    intro content
    unfold startTag
    split
    · split <;> rfl
    · rfl
  obtain ⟨quote, hquote⟩ := exists_quoteAfter_of_cut (quoteAfter_content h) hcut
  have hcontent : tagOnto none [] glyphs = (glyphs, []) := by
    have hends := tagOnto_of_quoteAfter hquote [] []
    rw [List.append_nil, List.append_nil] at hends
    rw [hends]
    cases quote <;> simp [tagOnto]
  rcases cut_cons_ascii (by decide) hcut with rfl | ⟨rest, rfl, -⟩
  · rw [tokens_last rfl]
    rfl
  · have htag : tag (.char 'i' :: rest) = (startTag (.char 'i' :: rest), []) := by
      unfold tag
      dsimp only
      rw [if_neg (by decide), if_neg (by decide), if_neg (by decide), hcontent]
    rw [tokens_last (by rw [htag]), htag, List.countP_singleton, hstart]
    rfl

/-- ASCII characters are cut off between two of them. -/
theorem exists_take_of_cut (hascii : ∀ c ∈ chars, c.toNat < 0x80) (h : Cut chars glyphs) :
    ∃ k < chars.length, glyphs = shown (chars.take k) := by
  induction h with
  | here _ hpart =>
    exact ⟨0, Nat.succ_pos _, hpart (hascii _ List.mem_cons_self)⟩
  | later _ ih =>
    obtain ⟨k, hk, rfl⟩ := ih fun c hc => hascii c (List.mem_cons_of_mem _ hc)
    exact ⟨k + 1, Nat.succ_lt_succ hk, rfl⟩

/-- A closing tag that is cut off is at most one closing tag. -/
theorem countP_closes_end (hcut : Cut ['/', 'i', '>'] glyphs) (name : List Glyph) :
    (tokensOnto [] (.char '<' :: glyphs)).countP (Token.closes name) ≤ 1 := by
  obtain ⟨k, hk, rfl⟩ := exists_take_of_cut (by decide) hcut
  have hlast : ∀ k < 3, (tag (shown (['/', 'i', '>'].take k))).2 = [] := by decide
  rw [tokens_last (hlast k hk)]
  exact List.countP_le_length

/-- The content of a record and its closing tag are at most one closing tag. -/
theorem countP_closes_content (hchars : '<' ∉ chars)
    (hcut : Cut (chars ++ '<' :: ['/', 'i', '>']) glyphs) (name : List Glyph) :
    (tokensOnto [] glyphs).countP (Token.closes name) ≤ 1 := by
  rcases cut_text hchars hcut with hnone | ⟨close, rfl, hclose⟩
  · rw [countP_of_no_tag (fun _ => rfl) hnone]
    exact Nat.zero_le 1
  · rw [countP_text (fun _ => rfl) hchars]
    exact countP_closes_end hclose name

end Pieces

/-! ## Records -/

section Records

variable {records : List (List (String × String) × String)} {glyphs : List Glyph}

/-- A record that is cut off opens at least what it closes. -/
theorem balance_record {r : List (String × String) × String}
    (h : ∀ a ∈ r.1, IsAttributeName a.1) (hcut : Cut (recordChars r) glyphs) :
    (tokensOnto [] glyphs).countP (Token.closes (shown ['i'])) ≤
      (tokensOnto [] glyphs).countP (Token.opens (shown ['i'])) := by
  have hchars : recordChars r = "\n  ".toList ++ '<' ::
      (('i' :: r.1.flatMap attributeChars ++ ['>']) ++
        ((escape r.2).toList ++ '<' :: ['/', 'i', '>'])) := by
    simp [recordChars]
  rw [hchars] at hcut
  rcases cut_text (by decide) hcut with hnone | ⟨start, rfl, htag⟩
  · rw [countP_of_no_tag (fun _ => rfl) hnone]
    exact Nat.zero_le _
  rw [countP_text (fun _ => rfl) (by decide), countP_text (fun _ => rfl) (by decide)]
  rcases cut_append htag with hstart | ⟨content, rfl, hcontent⟩
  · rw [countP_closes_start h hstart]
    exact Nat.zero_le _
  -- The start tag is whole, so one element is open, and there is at most one closing tag left.
  have hopen : tokensOnto [] (.char '<' ::
      (shown ('i' :: r.1.flatMap attributeChars ++ ['>']) ++ content)) =
        .open_ (shown ['i']) (shown (r.1.flatMap attributeChars)) :: tokensOnto [] content := by
    rw [shown_append, List.append_assoc]
    exact tokens_tag (tag_open h content) (by simp)
  have hclosed := countP_closes_content (not_mem_escape r.2).1 hcontent (shown ['i'])
  rw [← shown, hopen, List.countP_cons_of_neg Bool.false_ne_true, List.countP_cons_of_pos (by rfl)]
  omega

theorem count_recordTokens (r : List (String × String) × String) :
    (recordTokens r).countP (Token.closes (shown ['i'])) =
      (recordTokens r).countP (Token.opens (shown ['i'])) := by
  unfold recordTokens
  split <;> simp [Token.closes, Token.opens]

/-- The end of a document closes nothing without its last bracket. -/
theorem countP_closes_unfinished (hcut : Cut ['\n', '<', '/', 'i'] glyphs) :
    (tokensOnto [] glyphs).countP (Token.closes (shown ['i'])) = 0 := by
  have htext : Cut (['\n'] ++ '<' :: ['/', 'i']) glyphs := hcut
  rcases cut_text (by decide) htext with hnone | ⟨close, rfl, hclose⟩
  · exact countP_of_no_tag (fun _ => rfl) hnone
  · rw [countP_text (fun _ => rfl) (by decide)]
    obtain ⟨k, hk, rfl⟩ := exists_take_of_cut (by decide) hclose
    have htag : ∀ k < 2, (tag (shown (['/', 'i'].take k))).2 = [] ∧
        (tag (shown (['/', 'i'].take k))).1.closes (shown ['i']) = false := by decide
    rw [tokens_last (htag k hk).1, List.countP_singleton, (htag k hk).2]
    rfl

theorem balance_records (h : ∀ r ∈ records, ∀ a ∈ r.1, IsAttributeName a.1)
    (hcut : Cut (records.flatMap recordChars ++ ['\n', '<', '/', 'i']) glyphs) :
    (tokensOnto [] glyphs).countP (Token.closes (shown ['i'])) ≤
      (tokensOnto [] glyphs).countP (Token.opens (shown ['i'])) := by
  induction records generalizing glyphs with
  | nil =>
    rw [countP_closes_unfinished hcut]
    exact Nat.zero_le _
  | cons r records ih =>
    obtain ⟨hr, hrest⟩ := List.forall_mem_cons.mp h
    rw [List.flatMap_cons, List.append_assoc] at hcut
    rcases cut_append hcut with hrecord | ⟨rest, rfl, hlater⟩
    · exact balance_record hr hrecord
    · rw [← shown, tokens_record hr, List.countP_append, List.countP_append, count_recordTokens]
      exact Nat.add_le_add_left (ih hrest hlater) _

/-- The root stays open in front of everything that is cut off. -/
theorem not_ok_of_cut (h : ∀ r ∈ records, ∀ a ∈ r.1, IsAttributeName a.1)
    (hcut : Cut ('>' :: (records.flatMap recordChars ++ ['\n', '<', '/', 'i'])) glyphs) :
    ∃ e, ofTokens (tokensOnto [] (.char '<' :: .char 'i' :: glyphs)) = .error e := by
  cases hread : ofTokens (tokensOnto [] (.char '<' :: .char 'i' :: glyphs)) with
  | error e => exact ⟨e, rfl⟩
  | ok read =>
    have hcount := count_of_ofTokens hread (shown ['i'])
    rcases cut_cons_ascii (by decide) hcut with rfl | ⟨rest, rfl, hrest⟩
    · rw [tokens_last rfl] at hcount
      exact absurd hcount (by decide)
    · have hroot : tokensOnto [] (.char '<' :: .char 'i' :: .char '>' :: rest) =
          .open_ (shown ['i']) [] :: tokensOnto [] rest := tokens_root rest
      have hbalance := balance_records h hrest
      rw [hroot, List.countP_cons_of_neg Bool.false_ne_true,
        List.countP_cons_of_pos (by rfl)] at hcount
      omega

end Records

/-! ## Documents -/

/-- A record that is to be written. -/
structure Draft where
  attributes : List (String × String)
  /-- The names of attributes that are left out as long as they have no value. -/
  optional : List String
  text : String
  named : ∀ a ∈ attributes, IsAttributeName a.1
  distinct : (attributes.map Prod.fst).Nodup

namespace Draft

/-- What is written of the record. -/
def written (d : Draft) : List (String × String) × String :=
  (writtenAttributes d.attributes d.optional, d.text)

/-- The record as it is read back. -/
def record (d : Draft) : Record := ⟨.ofList d.written.1, d.written.2⟩

theorem named_written (d : Draft) : ∀ a ∈ d.written.1, IsAttributeName a.1 :=
  fun a ha => d.named a (List.mem_filter.mp ha).1

theorem distinct_written (d : Draft) : (d.written.1.map Prod.fst).Nodup :=
  d.distinct.sublist (List.filter_sublist.map Prod.fst)

/-- The document of some records. -/
def document (drafts : List Draft) : String :=
  documentText (drafts.map fun d =>
    recordText (writtenAttributes d.attributes d.optional) d.text)

variable (drafts : List Draft)

theorem forall_written : ∀ r ∈ drafts.map written,
    (∀ a ∈ r.1, IsAttributeName a.1) ∧ (r.1.map Prod.fst).Nodup := by
  intro r hr
  obtain ⟨d, -, rfl⟩ := List.mem_map.mp hr
  exact ⟨d.named_written, d.distinct_written⟩

theorem document_eq :
    document drafts = documentText ((drafts.map written).map fun r => recordText r.1 r.2) := by
  rw [List.map_map]
  rfl

theorem read_document : Records.read (document drafts).toUTF8 = .ok (drafts.map record) := by
  rw [document_eq, read_documentText (forall_written drafts), List.map_map]
  rfl

/-- The characters of a document behind its first two, without its last. -/
def inner : List Char :=
  '>' :: ((drafts.map written).flatMap recordChars ++ ['\n', '<', '/', 'i'])

theorem toList_document :
    (document drafts).toList = ['<', 'i'] ++ (inner drafts ++ ['>']) := by
  rw [document_eq, toList_documentText]
  simp [inner]

theorem size_document : (document drafts).toUTF8.size =
    2 + ((inner drafts).flatMap String.utf8EncodeChar).length + 1 := by
  rw [← length_toList, toList_toUTF8, toList_document, List.flatMap_append, List.flatMap_append,
    List.length_append, List.length_append, ← Nat.add_assoc]
  rfl

variable {drafts} {k : Nat}

/-- Behind the first two characters, the cut is in what follows them. -/
theorem decode_extract (hk : 2 ≤ k) :
    Utf8.decode ((document drafts).toUTF8.extract 0 k).toList = .char '<' :: .char 'i' ::
      Utf8.decode (((inner drafts ++ ['>']).flatMap String.utf8EncodeChar).take (k - 2)) := by
  rw [toList_extract_zero, toList_toUTF8, toList_document]
  exact decode_take_append ['<', 'i'] (inner drafts ++ ['>']) hk

/-- Nothing is left of a document that ends before the name of its root. -/
theorem read_extract_of_lt (hk : k < 2) :
    Records.read ((document drafts).toUTF8.extract 0 k) = .ok [] := by
  have hbytes : ((document drafts).toUTF8.extract 0 k).toList =
      (['<', 'i'].take k).flatMap String.utf8EncodeChar := by
    have htake : ∀ k < 2, (['<', 'i'].flatMap String.utf8EncodeChar).take k =
        (['<', 'i'].take k).flatMap String.utf8EncodeChar := by decide
    rw [toList_extract_zero, toList_toUTF8, toList_document, List.flatMap_append,
      List.take_append_of_le_length (Nat.le_of_lt hk), htake k hk]
  unfold Records.read tokens
  rw [hbytes, Utf8.decode, Utf8.decodeOnto_encode]
  rcases Nat.le_one_iff_eq_zero_or_eq_one.mp (Nat.le_of_lt_succ hk) with rfl | rfl
  · have hnone : tokensOnto [] [] = [] := by rw [tokensOnto, List.reverse_nil]
    exact congrArg ofTokens hnone
  · have hskipped : tokensOnto [] [.char '<'] = [.skipped] := tokens_last rfl
    exact congrArg ofTokens hskipped

/-- A document that ends somewhere else is refused. -/
theorem read_extract_of_le (hk : 2 ≤ k) (hsize : k + 1 < (document drafts).toUTF8.size) :
    ∃ e, Records.read ((document drafts).toUTF8.extract 0 k) = .error e := by
  rw [size_document] at hsize
  have hlt : k - 2 < ((inner drafts).flatMap String.utf8EncodeChar).length := by omega
  unfold Records.read tokens
  rw [decode_extract hk, List.flatMap_append, List.take_append_of_le_length (Nat.le_of_lt hlt)]
  exact not_ok_of_cut (fun r hr => (forall_written drafts r hr).1) (cut_decode hlt)

/-- The last bracket is not missed. -/
theorem read_extract_of_eq (hsize : k + 1 = (document drafts).toUTF8.size) :
    Records.read ((document drafts).toUTF8.extract 0 k) = .ok (drafts.map record) := by
  rw [size_document] at hsize
  have hk : k - 2 = ((inner drafts).flatMap String.utf8EncodeChar).length := by omega
  have hname : ∀ r ∈ drafts.map written, ∀ a ∈ r.1, IsAttributeName a.1 :=
    fun r hr => (forall_written drafts r hr).1
  have hend : tokensOnto [] (shown ['\n', '<', '/', 'i']) =
      [.text (shown ['\n']), .close (shown ['i'])] := by
    have htext : tokensOnto [] (shown ['\n'] ++ .char '<' :: shown ['/', 'i']) =
        .text (shown ['\n']) :: tokensOnto [] (.char '<' :: shown ['/', 'i']) :=
      tokens_text (by decide) (by decide) _
    rwa [tokens_last rfl] at htext
  have hcut : tokens ((document drafts).toUTF8.extract 0 k) = tokens (document drafts).toUTF8 := by
    have hinner : Utf8.decode ((document drafts).toUTF8.extract 0 k).toList =
        shown ['<', 'i', '>'] ++ (shown ((drafts.map written).flatMap recordChars) ++
          shown ['\n', '<', '/', 'i']) := by
      rw [decode_extract (by omega), List.flatMap_append, List.take_left' hk.symm, Utf8.decode,
        Utf8.decodeOnto_encode, inner, ← shown_append]
      rfl
    rw [tokens, hinner, document_eq, tokens_documentText hname]
    have hmark : ∀ rest : List Glyph, dropByteOrderMark (shown ['<', 'i', '>'] ++ rest) =
        shown ['<', 'i', '>'] ++ rest := fun _ => rfl
    rw [hmark, tokens_root, tokens_records hname, hend]
    rfl
  rw [← read_document, Records.read, Records.read, hcut]

/-- A document that is cut off somewhere is never half read. It is refused as a whole, but for two
ends: only its last bracket is missing, and all its records are read, or not even the name of its
root is left, and there are none. -/
theorem read_cut_off (drafts : List Draft) {k : Nat} (hk : k < (document drafts).toUTF8.size) :
    Records.read (document drafts).toUTF8 = .ok (drafts.map record) ∧
      ((2 ≤ k ∧ k + 1 < (document drafts).toUTF8.size ∧
          ∃ e, Records.read ((document drafts).toUTF8.extract 0 k) = .error e) ∨
        (k + 1 = (document drafts).toUTF8.size ∧
          Records.read ((document drafts).toUTF8.extract 0 k) = .ok (drafts.map record)) ∨
        (k < 2 ∧ Records.read ((document drafts).toUTF8.extract 0 k) = .ok [])) := by
  refine ⟨read_document drafts, ?_⟩
  rcases Nat.lt_or_ge k 2 with hlt | hge
  · exact Or.inr (Or.inr ⟨hlt, read_extract_of_lt hlt⟩)
  rcases Nat.lt_or_eq_of_le (Nat.succ_le_of_lt hk) with hbefore | hlast
  · exact Or.inl ⟨hge, hbefore, read_extract_of_le hge hbefore⟩
  · exact Or.inr (Or.inl ⟨hlast, read_extract_of_eq hlast⟩)

/-- The cut falls in the entity that stands for the text. -/
theorem read_cut_off_entity :
    22 < (document [⟨[("k", "\"")], [], "<", by decide, by decide⟩]).toUTF8.size ∧
      ∃ e, Records.read ((document [⟨[("k", "\"")], [], "<", by decide, by decide⟩]).toUTF8.extract
        0 22) = .error e := by
  have hsize : (document [⟨[("k", "\"")], [], "<", by decide, by decide⟩]).toUTF8.size = 33 := by
    decide
  have hk : 22 < (document [⟨[("k", "\"")], [], "<", by decide, by decide⟩]).toUTF8.size := by
    rw [hsize]
    decide
  obtain ⟨-, ⟨-, -, herror⟩ | ⟨hlast, -⟩ | ⟨hlt, -⟩⟩ := read_cut_off _ hk
  · exact ⟨hk, herror⟩
  · rw [hsize] at hlast
    exact absurd hlast (by decide)
  · exact absurd hlt (by decide)

end Draft

end Foresight.Records
