import Foresight.Text.Classes

/-!
# Widths

How many columns a text takes where a column is as wide as a letter. A character takes one column,
two or none by its class, but some sequences are shown as one picture or as one letter. So a text is
measured from its end: what stands behind a character, as far as the two can be shown as one, is a
`Sequel`, and a character adds its columns to those behind it or takes some of them back.
-/

namespace Foresight.Text

/-! ## What stands behind a character -/

inductive Sequel where
  | nothing
  | lineFeed
  | picture
  | skinTone
  | flagLetter
  /-- More than one letter of a flag. -/
  | flagLetters
  /-- A picture behind a joiner. -/
  | joinedPicture
  /-- The frame of a key before a joined picture. -/
  | joinedKey
  /-- One letter of a flag before a joined picture, then two, then one more. -/
  | joinedFlagLetter
  | joinedFlag
  | joinedFlagAndLetter
  /-- Tags before a joined picture: letters, and digits. -/
  | tagLetters (count : Nat)
  | tagDigits (count : Nat)
  /-- Letters that the letter before them may be written together with, perhaps behind a joiner. -/
  | alef
  | lamed (joined : Bool)
  | khmerLetter
  | bugineseYa (joined : Bool)
  | bugineseVowelAndYa
  | tifinagh (joined : Bool)
  | tifinaghJoiner
  | lisuTone
  | orkhonI (joined : Bool)
  | kiratE
  | kiratAi
  deriving DecidableEq, Inhabited

/-- Whether a letter is what stands there. -/
def Sequel.isLetter : Sequel → Bool
  | .alef | .lamed _ | .khmerLetter | .bugineseYa _ | .bugineseVowelAndYa | .tifinagh _
  | .tifinaghJoiner | .lisuTone | .orkhonI _ => true
  | _ => false

/-- Whether silent marks before it change nothing. -/
def Sequel.seesThroughMarks (s : Sequel) : Bool := s.isLetter && s != .alef

/-- The sequel with a joiner before it. -/
def Sequel.join : Sequel → Sequel
  | .lamed _ => .lamed true
  | .bugineseYa _ => .bugineseYa true
  | .tifinagh _ => .tifinagh true
  | .orkhonI _ => .orkhonI true
  | s => s

/-- A sequel, and whether a selector before it asks for a picture or for a letter. -/
structure Behind where
  sequel : Sequel
  asPicture : Bool
  asLetter : Bool
  deriving DecidableEq, Inhabited

namespace Behind

def of (sequel : Sequel) : Behind := ⟨sequel, false, false⟩

def none : Behind := of .nothing

/-- With a selector for a picture before it. -/
def selectPicture (b : Behind) : Behind :=
  if b.sequel.isLetter then { b with asPicture := true }
  else if b.sequel = .joinedPicture ∨ b.sequel = .joinedKey then ⟨b.sequel, true, false⟩
  else ⟨.nothing, true, false⟩

/-- With a selector for a letter before it. -/
def selectLetter (b : Behind) : Behind :=
  if b.sequel.isLetter then { b with asLetter := true } else ⟨.nothing, false, true⟩

/-- After a selector for a picture that nothing answered. -/
def dropPicture (b : Behind) : Behind :=
  if b.sequel.isLetter then { b with asPicture := false } else none

/-- After a selector for a letter that nothing answered. -/
def dropLetter (b : Behind) : Behind :=
  if b.sequel.isLetter then { b with asLetter := false } else none

end Behind

/-! ## The columns of a character -/

def isFlagLetter (c : Char) : Bool := inRanges [(0x1f1e6, 0x1f1ff)] c

def isSkinTone (c : Char) : Bool := inRanges [(0x1f3fb, 0x1f3ff)] c

/-- Words in squares, which are never narrower than ideographs. -/
def isSquareWord (c : Char) : Bool := inRanges [(0x1f200, 0x1f2ff)] c

/-- The forms of the Arabic letter alef. -/
def isAlef (c : Char) : Bool :=
  inRanges [(0x622, 0x623), (0x625, 0x625), (0x627, 0x627), (0x671, 0x673), (0x675, 0x675),
    (0x773, 0x774), (0x870, 0x882)] c

/-- The forms of the Arabic letter lam. -/
def isLam (c : Char) : Bool :=
  inRanges [(0x644, 0x644), (0x6b5, 0x6b8), (0x76a, 0x76a), (0x8a6, 0x8a6), (0x8c7, 0x8c7)] c

/-- The Khmer letters that can be written under another letter. -/
def isKhmerLetter (c : Char) : Bool :=
  inRanges [(0x1780, 0x1782), (0x1784, 0x1787), (0x1789, 0x178c), (0x178e, 0x1793),
    (0x1795, 0x1798), (0x179b, 0x179d), (0x17a0, 0x17a0), (0x17a2, 0x17a2), (0x17a7, 0x17a7),
    (0x17ab, 0x17ac), (0x17af, 0x17af)] c

def isTifinagh (c : Char) : Bool := inRanges [(0x2d31, 0x2d65), (0x2d6f, 0x2d6f)] c

def pictureSelector : Char := '\ufe0f'

def letterSelector : Char := '\ufe0e'

def joiner : Char := '\u200d'

/-- The columns of a character that joins nothing, and what it is to the character before it. -/
def columnsAlone (c : Char) : Int × Behind :=
  if c = pictureSelector then (0, ⟨.nothing, true, false⟩)
  else if c = letterSelector then (0, ⟨.nothing, false, true⟩)
  else if c = '\u17d8' then (3, .none)
  else if c = '\u05dc' then (1, .of (.lamed false))
  else if c = '\u1a10' then (1, .of (.bugineseYa false))
  else if c.toNat = 0x10c03 then (1, .of (.orkhonI false))
  else if c.toNat = 0x16d67 then (1, .of .kiratE)
  else if c.toNat = 0x16d68 then (1, .of .kiratAi)
  else if c = '\ua4fc' ∨ c = '\ua4fd' then (1, .of .lisuTone)
  else if isAlef c then (1, .of .alef)
  else if isKhmerLetter c then (1, .of .khmerLetter)
  else if isTifinagh c then (1, .of (.tifinagh false))
  else if isFlagLetter c then (1, .of .flagLetter)
  else if isSkinTone c then (2, .of .skinTone)
  else if isPicture c then (2, .of .picture)
  else if isWidthless c then (0, .none)
  else if isDouble c then (2, .none)
  else (1, .none)

/-- The columns that a letter adds to the letter it is written together with. -/
def columnsOfLetter? (c : Char) : Sequel → Option (Int × Sequel)
  | .alef =>
    if isLam c then some (0, .nothing) else if letsJoin c then some (0, .alef) else none
  | .lamed true => if c = '\u05d0' then some (0, .nothing) else none
  | .khmerLetter => if c = '\u17d2' then some (-1, .nothing) else none
  | .bugineseYa true => if c = '\u1a17' then some (0, .bugineseVowelAndYa) else none
  | .bugineseVowelAndYa => if c = '\u1a15' then some (0, .nothing) else none
  | .tifinagh joined =>
    if c = '\u2d7f' then some (1, .tifinaghJoiner)
    else if joined && isTifinagh c then some (0, .nothing)
    else none
  | .tifinaghJoiner => if isTifinagh c then some (-1, .nothing) else none
  | .lisuTone => if '\ua4f8' ≤ c ∧ c ≤ '\ua4fb' then some (0, .nothing) else none
  | .orkhonI true => if c.toNat = 0x10c32 then some (0, .nothing) else none
  | .kiratE =>
    if c.toNat = 0x16d63 ∨ c.toNat = 0x16d69 then some (0, .nothing)
    else if c.toNat = 0x16d67 then some (0, .kiratAi)
    else if c.toNat = 0x16d68 then some (1, .kiratE)
    else none
  | .kiratAi => if c.toNat = 0x16d63 then some (0, .nothing) else none
  | _ => none

/-- The columns that a character adds to a picture that it is a part of. -/
def columnsOfPart? (c : Char) : Sequel → Option (Int × Sequel)
  | .picture => joined?
  | .skinTone => if isToneable c then some (0, .picture) else joined?
  | .flagLetter => if isFlagLetter c then some (1, .flagLetters) else none
  | .flagLetters => if isFlagLetter c then some (1, .flagLetters) else joined?
  | .joinedPicture =>
    if c = '\u20e3' then some (0, .joinedKey)
    else if isFlagLetter c then some (1, .joinedFlagLetter)
    else if isSkinTone c then some (0, .skinTone)
    else if c.toNat = 0xe007f then some (0, .tagLetters 0)
    else if isPicture c then some (0, .picture)
    else none
  | .joinedFlagLetter => if isFlagLetter c then some (-1, .joinedFlag) else none
  | .joinedFlag => if isFlagLetter c then some (3, .joinedFlagAndLetter) else joined?
  | .joinedFlagAndLetter => if isFlagLetter c then some (-1, .joinedFlag) else joined?
  | .tagLetters count =>
    if inRanges [(0xe0061, 0xe007a)] c && count < 6 then some (0, .tagLetters (count + 1))
    else if inRanges [(0xe0030, 0xe0039)] c && count < 5 then some (0, .tagDigits 1)
    else if c.toNat = 0x1f3f4 ∧ 3 ≤ count then some (0, .picture)
    else none
  | .tagDigits count =>
    if inRanges [(0xe0030, 0xe0039)] c && count < 3 then some (0, .tagDigits (count + 1))
    else if c.toNat = 0x1f3f4 ∧ count = 3 then some (0, .picture)
    else none
  | _ => none
where
  joined? : Option (Int × Sequel) := if c = joiner then some (0, .joinedPicture) else none

/-- The columns that a character adds to those behind it, and what it is to the character before
it. -/
def columnsBefore (c : Char) (behind : Behind) : Int × Behind :=
  if behind.asPicture && isSelectable c then
    (if behind.sequel = .joinedPicture ∨ behind.sequel = .joinedKey then 0 else 2, .of .picture)
  else
    let behind := if behind.asPicture then behind.dropPicture else behind
    if c ≤ '\u00a0' then
      if c = '\n' then (1, .of .lineFeed)
      else if c = '\r' ∧ behind = .of .lineFeed then (0, .none)
      else (1, .none)
    else if behind = .none then columnsAlone c
    else if c = pictureSelector then (0, behind.selectPicture)
    else if c = letterSelector then (0, behind.selectLetter)
    else if behind.asLetter && isSelectable c && isPicture c && !isSquareWord c then (1, .none)
    else
      let sequel := if behind.asLetter then behind.dropLetter.sequel else behind.sequel
      if sequel.seesThroughMarks && c = joiner then (0, .of sequel.join)
      else if sequel.seesThroughMarks && isSilentMark c then (0, .of sequel)
      else
        match columnsOfLetter? c sequel <|> columnsOfPart? c sequel with
        | some (columns, sequel) => (columns, .of sequel)
        | none => columnsAlone c

/-! ## The columns of a text -/

def columnsOf (text : List Char) : Nat :=
  (text.foldr (fun c (columns, behind) =>
    let (added, behind) := columnsBefore c behind
    (columns + added, behind)) ((0 : Int), Behind.none)).1.toNat

end Foresight.Text
