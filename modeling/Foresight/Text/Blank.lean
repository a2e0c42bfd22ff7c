/-!
# White space

Which characters count as blank, and the operations that drop or split at them. The class is the
Unicode property `White_Space`; every trimming in the library goes through it.
-/

namespace Foresight.Text

/-- The Unicode property `White_Space`. -/
def isBlank (c : Char) : Bool :=
  let n := c.toNat
  (0x09 ≤ n && n ≤ 0x0d) || n == 0x20 || n == 0x85 || n == 0xa0 || n == 0x1680 ||
    (0x2000 ≤ n && n ≤ 0x200a) || n == 0x2028 || n == 0x2029 || n == 0x202f || n == 0x205f ||
    n == 0x3000

def trimStart (text : String) : String :=
  String.ofList (text.toList.dropWhile isBlank)

def trimEnd (text : String) : String :=
  String.ofList (text.toList.reverse.dropWhile isBlank).reverse

def trim (text : String) : String :=
  trimEnd (trimStart text)

/-- Nothing but white space. -/
def isBlankText (text : String) : Bool :=
  text.toList.all isBlank

/-- The maximal pieces without a separator, empty ones included: one more than there are
separators. -/
def pieces {α : Type} (isSeparator : α → Bool) : List α → List (List α)
  | [] => [[]]
  | c :: rest =>
    if isSeparator c then
      [] :: pieces isSeparator rest
    else
      match pieces isSeparator rest with
      | [] => [[c]]
      | piece :: more => (c :: piece) :: more

/-- The pieces of a text between occurrences of one character. -/
def splitAt (separator : Char) (text : String) : List String :=
  (pieces (· == separator) text.toList).map String.ofList

def words (text : String) : List String :=
  ((pieces isBlank text.toList).filter (!·.isEmpty)).map String.ofList

/-- The words of a text with one space between neighbours. -/
def squeeze (text : String) : String :=
  String.intercalate " " (words text)

end Foresight.Text
