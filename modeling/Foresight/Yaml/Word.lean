import Foresight.Text.Number

/-!
# Words

A scalar that stands unquoted in a document is a *word*. What it means (nothing, a truth value, a
number, a text) is decided by whoever asks for a value; a writer has to know what a reader could
take it for (`readsOtherwise`).
-/

namespace Foresight.Yaml

def isNull (word : String) : Bool :=
  ["null", "Null", "NULL", "~"].contains word

def truth? (word : String) : Option Bool :=
  if ["true", "True", "TRUE"].contains word then some true
  else if ["false", "False", "FALSE"].contains word then some false
  else none

/-! ## Whole numbers -/

def isSign (c : Char) : Bool := c == '+' || c == '-'

def withoutSign : List Char → List Char
  | [] => []
  | c :: rest => if isSign c then rest else c :: rest

def isNegative (word : List Char) : Bool :=
  word.head? == some '-'

/-- Digits that begin with a zero and go on: they are a text, not a number. -/
def isPadded (word : List Char) : Bool :=
  match withoutSign word with
  | '0' :: c :: rest => (c :: rest).all Char.isDigit
  | _ => false

/-- The number behind the mark of its base, or in decimal. -/
def magnitude? : List Char → Option Nat
  | '0' :: 'x' :: digits => Text.digits? 16 digits
  | '0' :: 'o' :: digits => Text.digits? 8 digits
  | '0' :: 'b' :: digits => Text.digits? 2 digits
  | digits => Text.digits? 10 digits

/-- The whole number that a word stands for, without its sign. -/
def whole? (word : List Char) : Option Nat :=
  if isPadded word then none else magnitude? (withoutSign word)

/-- The natural number below `2 ^ 64` that a word stands for. A minus sign is refused, also before
zero. -/
def natural? (word : String) : Option Nat :=
  if isNegative word.toList then none else (whole? word.toList).filter (· < UInt64.size)

/-- Whether a word is a whole number of at most 128 bits. -/
def isWhole (word : List Char) : Bool :=
  (whole? word).any fun n => if isNegative word then n ≤ Nat.pow 2 127 else n < Nat.pow 2 128

/-! ## Fractions

A word also reads as a number if it has a decimal point or an exponent, as long as its value is in
the range of a 64-bit float. -/

/-- The point beyond which a value rounds to infinity. -/
def floatLimit : Nat := Nat.pow 2 1024 - Nat.pow 2 970

/-- Whether `mantissa · 10 ^ (± exponent - places)` lies below the limit. Beyond four hundred the
exponent alone settles it. -/
def isFinite (mantissa places : Nat) (negative : Bool) (exponent : Nat) : Bool :=
  if mantissa == 0 then true
  else if negative then mantissa < floatLimit * Nat.pow 10 (places + min exponent 400)
  else if exponent ≤ places then mantissa < floatLimit * Nat.pow 10 (places - exponent)
  else exponent - places ≤ 400 && mantissa * Nat.pow 10 (exponent - places) < floatLimit

/-- The digits of a mantissa without its point, and how many of them follow it. -/
def mantissa? (text : List Char) : Option (Nat × Nat) :=
  let whole := text.takeWhile (· != '.')
  let fraction := (text.dropWhile (· != '.')).drop 1
  (Text.digits? 10 (whole ++ fraction)).map (·, fraction.length)

/-- Whether the text is an unsigned decimal, perhaps with an exponent, of a finite value. -/
def isDecimal (text : List Char) : Bool :=
  let isMark (c : Char) : Bool := c == 'e' || c == 'E'
  let exponent? : Option (Bool × Nat) :=
    match text.dropWhile (!isMark ·) with
    | [] => some (false, 0)
    | _ :: exponent => (Text.digits? 10 (withoutSign exponent)).map (isNegative exponent, ·)
  match mantissa? (text.takeWhile (!isMark ·)), exponent? with
  | some (mantissa, places), some (negative, exponent) =>
    isFinite mantissa places negative exponent
  | _, _ => false

def isFloat (word : List Char) : Bool :=
  [".inf", ".Inf", ".INF"].contains (String.ofList (withoutSign word)) ||
    [".nan", ".NaN", ".NAN"].contains (String.ofList word) ||
    isDecimal (withoutSign word)

/-- Whether an unquoted text would not be read back as a text. -/
def readsOtherwise (text : String) : Bool :=
  let word := text.toList
  text.isEmpty || isNull text || (truth? text).isSome || isPadded word || isWhole word ||
    isFloat word

end Foresight.Yaml
