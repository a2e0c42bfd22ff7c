/-!
# Reading UTF-8

Bytes are read as glyphs: characters, and the maximal ill-formed parts between them. No ASCII byte
ever belongs to an ill-formed part, so a text can be cut at ASCII characters before or after it is
read, with the same result. A strict reader refuses ill-formed parts (`strict?`), a lenient one
writes U+FFFD for each (`lossy`).
-/

namespace Foresight.Text

/-- A character read from bytes, or an ill-formed part as it stands. -/
inductive Glyph where
  | char (c : Char)
  | illFormed (bytes : List UInt8)
  deriving DecidableEq, Inhabited

/-- The character that stands for an ill-formed part. -/
def Glyph.replacement : Char := '\ufffd'

def Glyph.is (c : Char) : Glyph → Bool
  | .char d => c == d
  | .illFormed _ => false

def Glyph.isWellFormed : Glyph → Bool
  | .char _ => true
  | .illFormed _ => false

/-- The character of a glyph, or its replacement. -/
def Glyph.toChar : Glyph → Char
  | .char c => c
  | .illFormed _ => replacement

namespace Utf8

/-- The bits that a continuation byte carries. -/
def payload (b : UInt8) : Nat := b.toNat % 64

/-- Whether `second` may follow `lead`, by the table of well-formed sequences. -/
def admits (lead second : UInt8) : Bool :=
  if lead == 0xe0 then 0xa0 ≤ second && second ≤ 0xbf
  else if lead == 0xed then 0x80 ≤ second && second ≤ 0x9f
  else if lead == 0xf0 then 0x90 ≤ second && second ≤ 0xbf
  else if lead == 0xf4 then 0x80 ≤ second && second ≤ 0x8f
  else 0x80 ≤ second && second ≤ 0xbf

def isContinuation (b : UInt8) : Bool := 0x80 ≤ b && b ≤ 0xbf

/-- The glyph that begins with `lead`, and what is left after it. -/
def next (lead : UInt8) (rest : List UInt8) : Glyph × List UInt8 :=
  if lead < 0x80 then
    (.char (Char.ofNat lead.toNat), rest)
  else if 0xc2 ≤ lead && lead ≤ 0xdf then
    match rest with
    | b :: rest₁ =>
      if isContinuation b then
        (.char (Char.ofNat (lead.toNat % 32 * 64 + payload b)), rest₁)
      else (.illFormed [lead], rest)
    | [] => (.illFormed [lead], [])
  else if 0xe0 ≤ lead && lead ≤ 0xef then
    match rest with
    | b :: rest₁ =>
      if admits lead b then
        match rest₁ with
        | c :: rest₂ =>
          if isContinuation c then
            (.char (Char.ofNat ((lead.toNat % 16 * 64 + payload b) * 64 + payload c)), rest₂)
          else (.illFormed [lead, b], rest₁)
        | [] => (.illFormed [lead, b], [])
      else (.illFormed [lead], rest)
    | [] => (.illFormed [lead], [])
  else if 0xf0 ≤ lead && lead ≤ 0xf4 then
    match rest with
    | b :: rest₁ =>
      if admits lead b then
        match rest₁ with
        | c :: rest₂ =>
          if isContinuation c then
            match rest₂ with
            | d :: rest₃ =>
              if isContinuation d then
                (.char (Char.ofNat
                  (((lead.toNat % 8 * 64 + payload b) * 64 + payload c) * 64 + payload d)), rest₃)
              else (.illFormed [lead, b, c], rest₂)
            | [] => (.illFormed [lead, b, c], [])
          else (.illFormed [lead, b], rest₁)
        | [] => (.illFormed [lead, b], [])
      else (.illFormed [lead], rest)
    | [] => (.illFormed [lead], [])
  else (.illFormed [lead], rest)

theorem length_next_le (lead : UInt8) (rest : List UInt8) :
    (next lead rest).2.length ≤ rest.length := by
  unfold next
  repeat' split
  all_goals simp_all
  all_goals omega

/-- Reads bytes after the glyphs already `read`, which are held in reverse. -/
def decodeOnto (read : List Glyph) : List UInt8 → List Glyph
  | [] => read.reverse
  | lead :: rest => decodeOnto ((next lead rest).1 :: read) (next lead rest).2
  termination_by bytes => bytes.length
  decreasing_by exact Nat.lt_succ_of_le (length_next_le lead rest)

/-- Reads bytes as characters and ill-formed parts. -/
def decode (bytes : List UInt8) : List Glyph :=
  decodeOnto [] bytes

/-- The text, if none of it is ill-formed. -/
def strict? (glyphs : List Glyph) : Option String :=
  if glyphs.all Glyph.isWellFormed then some (String.ofList (glyphs.map Glyph.toChar)) else none

/-- The text, with a replacement character for every ill-formed part. -/
def lossy (glyphs : List Glyph) : String :=
  String.ofList (glyphs.map Glyph.toChar)

/-- The text of some bytes, with a replacement character for every ill-formed part. Well-formed
bytes are taken as they are. -/
def textOf (bytes : ByteArray) : String :=
  match String.fromUTF8? bytes with
  | some text => text
  | none => lossy (decode bytes.toList)

end Utf8

end Foresight.Text
