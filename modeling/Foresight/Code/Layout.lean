import Foresight.Code.SourceFile
import Foresight.Text.Cut

/-!
# Laying out statement trees

A source file can be made from statement trees: the trees are written out as text, one member body
after the other, and every statement is pushed with the span of the text that was written for it.
Blocks hold one statement a line, four spaces further in; an embedded statement goes on a line of
its own; clauses of a `try` follow each other on the line of the closing brace.
-/

namespace Foresight

inductive StatementTree where
  | block (statements : List StatementTree)
  | expression (expression : Expression)
  | declaration (declared : List Variable)
  | if_ (condition : Expression) (then_ else_ : Option StatementTree)
  | while_ (condition : Expression) (body : Option StatementTree)
  | doWhile (body : StatementTree) (condition : Expression)
  | foreach (iterator : Iterator) (collection : Expression) (body : Option StatementTree)
  | using_ (declared : List Variable) (body : Option StatementTree)
  | return_ (value : Option Expression)
  | break_
  | continue_
  | empty
  | try_ (body : List StatementTree) (catches : List (CatchClause (List StatementTree)))
      (finally_ : Option (List StatementTree))
  | raw (text : String)

namespace CatchClause

/-- `catch (T variable) { ... }` -/
def typed {β : Type} (type : TypeRef) (variable_ : Option String) (body : β) : CatchClause β :=
  ⟨some (.resolved type), some type.presentable, variable_, body⟩

/-- `catch { ... }` -/
def bare {β : Type} (body : β) : CatchClause β := ⟨none, none, none, body⟩

end CatchClause

namespace StatementTree

/-- `T name = value;` with an explicit type. -/
def local_ (name : String) (type : TypeRef) (value : Expression) : StatementTree :=
  .declaration [⟨name, .resolved type, false, type.presentable, some value⟩]

/-- `var name = value;` with the value's type. -/
def var (name : String) (value : Expression) : StatementTree :=
  .declaration [⟨name, value.type, true, "var", some value⟩]

def ifThen (condition : Expression) (body : List StatementTree) : StatementTree :=
  .if_ condition (some (.block body)) none

def whileLoop (condition : Expression) (body : List StatementTree) : StatementTree :=
  .while_ condition (some (.block body))

/-- `foreach (T name in collection) { ... }`, with `var` where no type is given. -/
def foreachIn (name : String) (element : Option TypeRef) (collection : Expression)
    (body : List StatementTree) : StatementTree :=
  let iterator : Iterator := match element with
    | some type => ⟨name, false, .resolved type, type.presentable⟩
    | none => ⟨name, true, .unknown, "var"⟩
  .foreach iterator collection (some (.block body))

/-- `using (var name = value) { ... }` -/
def usingVar (name : String) (value : Expression) (body : List StatementTree) : StatementTree :=
  .using_ [⟨name, value.type, true, "var", some value⟩] (some (.block body))

end StatementTree

namespace Layout

def declarator (v : Variable) : String :=
  match v.initializer with
  | some value => v.name ++ " = " ++ value.text
  | none => v.name

/-- The declarators after the type of the first one. -/
def declarationText (declared : List Variable) : String :=
  let type := match declared.head? with
    | some v => v.writtenType
    | none => "var"
  type ++ " " ++ Text.join ", " (declared.map declarator)

def indentation : Nat → String
  | 0 => ""
  | level + 1 => "    " ++ indentation level

/-- What stands between `catch` and its block. -/
def catchHeader (type variable_ : Option String) : String :=
  match type, variable_ with
  | some type, some v => " (" ++ type ++ " " ++ v ++ ")"
  | some type, none => " (" ++ type ++ ")"
  | none, _ => ""

def write (text : String) (file : SourceFile) : SourceFile :=
  { file with text := file.text ++ text }

/-- Pushes a statement whose text runs from `start` to where the writing stands. -/
def close (kind : StatementKind) (start : Nat) (file : SourceFile) : SourceFile × StatementId :=
  file.push kind ⟨start, file.text.utf8ByteSize⟩

/-- Closes the block that was opened at `start` around these statements. -/
def closeBlock (level start : Nat) (emitted : SourceFile × List StatementId) :
    SourceFile × StatementId :=
  close (.block emitted.2) start (write (indentation level ++ "\x7d") emitted.1)

mutual

/-- Writes a statement at a nesting level and pushes it with everything below it. -/
def emit (level : Nat) : StatementTree → SourceFile → SourceFile × StatementId
  | .block statements, file =>
    closeBlock level file.text.utf8ByteSize (emitLines level statements (write "\x7b\n" file))
  | .expression e, file =>
    close (.expression e) file.text.utf8ByteSize (write (e.text ++ ";") file)
  | .declaration declared, file =>
    close (.declaration declared) file.text.utf8ByteSize
      (write (declarationText declared ++ ";") file)
  | .if_ condition then_ else_, file =>
    let start := file.text.utf8ByteSize
    let (file, thenId) := emitBody level "" then_ (write ("if (" ++ condition.text ++ ")") file)
    let (file, elseId) := emitBody level ("\n" ++ indentation level ++ "else") else_ file
    close (.if_ condition thenId elseId) start file
  | .while_ condition body, file =>
    let start := file.text.utf8ByteSize
    let (file, id) := emitBody level "" body (write ("while (" ++ condition.text ++ ")") file)
    close (.while_ condition id) start file
  | .doWhile (.block statements) condition, file =>
    let start := file.text.utf8ByteSize
    let opened := write "do " file
    let (file, id) := closeBlock level opened.text.utf8ByteSize
      (emitLines level statements (write "\x7b\n" opened))
    close (.doWhile (some id) condition) start
      (write (" while (" ++ condition.text ++ ");") file)
  | .doWhile body condition, file =>
    let start := file.text.utf8ByteSize
    let (file, id) := emit (level + 1) body (write ("do\n" ++ indentation (level + 1)) file)
    close (.doWhile (some id) condition) start
      (write (" while (" ++ condition.text ++ ");") file)
  | .foreach iterator collection body, file =>
    let start := file.text.utf8ByteSize
    let header := "foreach (" ++ iterator.writtenType ++ " " ++ iterator.name ++ " in " ++
      collection.text ++ ")"
    let (file, id) := emitBody level "" body (write header file)
    close (.foreach iterator collection id) start file
  | .using_ declared body, file =>
    let start := file.text.utf8ByteSize
    let (file, id) := emitBody level "" body
      (write ("using (" ++ declarationText declared ++ ")") file)
    close (.using_ declared none id) start file
  | .return_ (some value), file =>
    close (.return_ (some value)) file.text.utf8ByteSize
      (write ("return " ++ value.text ++ ";") file)
  | .return_ none, file =>
    close (.return_ none) file.text.utf8ByteSize (write "return;" file)
  | .break_, file => close .break_ file.text.utf8ByteSize (write "break;" file)
  | .continue_, file => close .continue_ file.text.utf8ByteSize (write "continue;" file)
  | .empty, file => close .empty file.text.utf8ByteSize (write ";" file)
  | .try_ body catches finally_, file =>
    let start := file.text.utf8ByteSize
    let opened := write "try " file
    let (file, bodyId) := closeBlock level opened.text.utf8ByteSize
      (emitLines level body (write "\x7b\n" opened))
    let (file, clauses) := emitCatches level catches file
    let (file, finallyId) := emitFinally level finally_ file
    close (.try_ (some bodyId) clauses finallyId) start file
  | .raw text, file => close .other file.text.utf8ByteSize (write text file)

/-- Statements of a block, each on a line of its own. -/
def emitLines (level : Nat) : List StatementTree → SourceFile → SourceFile × List StatementId
  | [], file => (file, [])
  | s :: rest, file =>
    let (file, id) := emit (level + 1) s (write (indentation (level + 1)) file)
    let (file, ids) := emitLines level rest (write "\n" file)
    (file, id :: ids)

/-- A body after its lead: a block stays on the line, any other statement goes on the next one. -/
def emitBody (level : Nat) (lead : String) :
    Option StatementTree → SourceFile → SourceFile × Option StatementId
  | none, file => (file, none)
  | some (.block statements), file =>
    let opened := write (lead ++ " ") file
    let (file, id) := closeBlock level opened.text.utf8ByteSize
      (emitLines level statements (write "\x7b\n" opened))
    (file, some id)
  | some s, file =>
    let (file, id) := emit (level + 1) s (write (lead ++ "\n" ++ indentation (level + 1)) file)
    (file, some id)

def emitCatches (level : Nat) :
    List (CatchClause (List StatementTree)) → SourceFile →
      SourceFile × List (CatchClause (Option StatementId))
  | [], file => (file, [])
  | ⟨type, written, variable_, body⟩ :: rest, file =>
    let opened := write (" catch" ++ catchHeader written variable_ ++ " ") file
    let (file, id) := closeBlock level opened.text.utf8ByteSize
      (emitLines level body (write "\x7b\n" opened))
    let (file, clauses) := emitCatches level rest file
    (file, ⟨type, written, variable_, some id⟩ :: clauses)

def emitFinally (level : Nat) :
    Option (List StatementTree) → SourceFile → SourceFile × Option StatementId
  | none, file => (file, none)
  | some statements, file =>
    let opened := write " finally " file
    let (file, id) := closeBlock level opened.text.utf8ByteSize
      (emitLines level statements (write "\x7b\n" opened))
    (file, some id)

end

/-- Member bodies, each under a header line that counts them from `index`; the block of each. -/
def emitMembers : (index : Nat) → List (List StatementTree) → SourceFile →
    SourceFile × List StatementId
  | _, [], file => (file, [])
  | index, body :: rest, file =>
    let gap := if index = 0 then "" else "\n"
    let header := gap ++ "void Member" ++ toString index ++ "()\n"
    let (file, id) := emit 0 (.block body) (write header file)
    let (file, ids) := emitMembers (index + 1) rest (write "\n" file)
    (file, id :: ids)

end Layout

/-- The member bodies of a file that is about to be laid out. -/
structure Outline where
  path : String
  members : List (List StatementTree)

namespace Outline

def new (path : String) : Outline := ⟨path, []⟩

/-- Appends a statement to the last member body, or begins one with it. -/
def statement (o : Outline) (s : StatementTree) : Outline :=
  match o.members.getLast? with
  | some body => { o with members := o.members.dropLast ++ [body ++ [s]] }
  | none => { o with members := [[s]] }

def method (o : Outline) (body : List StatementTree) : Outline :=
  { o with members := o.members ++ [body] }

/-- The file that the outline describes, with the block of each member as a root. -/
def finish (o : Outline) : SourceFile :=
  let (file, roots) := Layout.emitMembers 0 o.members (.new o.path "")
  roots.foldl SourceFile.addRoot file

end Outline

end Foresight
