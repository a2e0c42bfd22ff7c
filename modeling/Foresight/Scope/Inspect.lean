import Foresight.Scope.Basic
import Foresight.Text.Classes

/-!
# Scopes in diagnostics

A scope on one line, with all that it holds. Texts stand between quotation marks: quotes,
backslashes and line controls are written with a backslash, and characters that do not show by their
code point.
-/

namespace Foresight

namespace Text

def hex (n : Nat) : String := String.ofList (Nat.toDigits 16 n)

def quoteChar (c : Char) : String :=
  match c with
  | '\t' => "\\t"
  | '\r' => "\\r"
  | '\n' => "\\n"
  | '"' => "\\\""
  | '\\' => "\\\\"
  | '\x00' => "\\0"
  | c => if isHidden c then "\\u\x7b" ++ hex c.toNat ++ "\x7d" else String.singleton c

def quote (text : String) : String :=
  "\"" ++ String.join (text.toList.map quoteChar) ++ "\""

end Text

namespace Scope

def inspectParameters (parameters : Fields) : String :=
  let pairs := parameters.entries.map fun (name, value) =>
    Text.quote name ++ ": " ++ Text.quote value
  "\x7b" ++ Text.join ", " pairs ++ "\x7d"

def inspect (s : Scope) : String :=
  "Scope \x7b key: " ++ Text.quote s.key ++ ", parameters: " ++ inspectParameters s.parameters ++
    ", anchor: " ++ toString s.anchor ++ ", block_scope: " ++ toString s.isBlock ++ " \x7d"

end Scope

end Foresight
