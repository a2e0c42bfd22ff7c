import Foresight.Text.Cut
import Foresight.Text.Number

/-!
# Command line arguments

A command line is options and a command, and after the command its own options and operands. Global
options may stand on either side of the command; the side of the command wins. The first thing that
is wrong ends the reading, and so does a request for the version or for help. An option comes once
at most, and what looks like an option is never the value of another.
-/

namespace Foresight.Command

/-! ## Commands -/

inductive ListFormat where
  | table
  | json
  deriving DecidableEq, Inhabited

structure SolutionArguments where
  root : String
  name : Option String
  deriving DecidableEq, Inhabited

inductive Request where
  | analyze (solution : SolutionArguments) (quiet : Bool)
  | update (solution : SolutionArguments) (files : List String) (quiet : Bool)
  | build
  | list (key : Option String) (format : ListFormat)
  | suggest (file : String) (line : Nat) (column : Option Nat) (root : Option String)
      (apply : Option Nat)
  | watch (solution : SolutionArguments) (enable : Bool)
  | printDefaultConfig
  | initConfig (output : String) (force : Bool)
  deriving DecidableEq, Inhabited

structure Arguments where
  request : Request
  config : Option String
  dataDir : Option String
  deriving DecidableEq, Inhabited

/-- Why there is nothing to run. -/
inductive Stop where
  | usage
  | help
  | version
  deriving DecidableEq, Inhabited

/-! ## Options -/

inductive ValueKind where
  | path
  | text
  | number
  | format
  deriving DecidableEq, Inhabited

/-- An option: its long name, its letter, and what value it takes, if it takes any. -/
structure OptionForm where
  name : String
  letter : Option Char
  value : Option ValueKind
  deriving DecidableEq, Inhabited

def ListFormat.parse? (text : String) : Option ListFormat :=
  if text = "table" then some .table else if text = "json" then some .json else none

def ValueKind.accepts : ValueKind → String → Bool
  | .path, value => !value.isEmpty
  | .text, _ => true
  | .number, value => (Text.natural? value).isSome
  | .format, value => (ListFormat.parse? value).isSome

def globalForms : List OptionForm :=
  [⟨"verbose", some 'v', none⟩, ⟨"config", some 'c', some .path⟩, ⟨"data-dir", none, some .path⟩]

/-- What has been read: options with their values, and operands. -/
structure Given where
  options : List (String × String)
  operands : List String
  deriving Inhabited

namespace Given

def empty : Given := ⟨[], []⟩

def has (g : Given) (name : String) : Bool := g.options.any (·.1 == name)

def value? (g : Given) (name : String) : Option String := g.options.lookup name

def number? (g : Given) (name : String) : Option Nat := (g.value? name).bind Text.natural?

def add (g : Given) (form : OptionForm) (value : String) : Except Stop Given :=
  if g.has form.name || !form.value.all (·.accepts value) then .error .usage
  else .ok { g with options := g.options ++ [(form.name, value)] }

end Given

/-- What an argument looks like: an option, some letters, or neither. -/
inductive Look where
  | end_
  | long (name : String) (value : Option String)
  | letters (letters : List Char)
  | plain
  deriving DecidableEq, Inhabited

def Look.of (argument : String) : Look :=
  match argument.toList with
  | ['-', '-'] => .end_
  | '-' :: '-' :: rest =>
    match Text.cut? "=" (String.ofList rest) with
    | some (name, value) => .long name (some value)
    | none => .long (String.ofList rest) none
  | '-' :: c :: rest => .letters (c :: rest)
  | _ => .plain

/-- Takes the letters of one argument. The option whose value is still to come is left over. -/
def takeLetters (forms : List OptionForm) (top : Bool) : List Char → Given →
    Except Stop (Given × Option OptionForm)
  | [], g => .ok (g, none)
  | letter :: rest, g =>
    match forms.find? (·.letter == some letter) with
    | none =>
      .error (if letter == 'h' then .help else if top && letter == 'V' then .version else .usage)
    | some form =>
      if form.value.isNone then do
        takeLetters forms top rest (← g.add form "")
      else
        match rest with
        | [] => .ok (g, some form)
        | '=' :: value => do return (← g.add form (String.ofList value), none)
        | value => do return (← g.add form (String.ofList value), none)

def takeLong (forms : List OptionForm) (top : Bool) (name : String) (value : Option String)
    (g : Given) : Except Stop (Given × Option OptionForm) :=
  match forms.find? (·.name == name) with
  | none =>
    .error (if value.isNone && name == "help" then .help
      else if value.isNone && top && name == "version" then .version else .usage)
  | some form =>
    match form.value, value with
    | none, none => do return (← g.add form "", none)
    | none, some _ => .error .usage
    | some _, some value => do return (← g.add form value, none)
    | some _, none => .ok (g, some form)

/-- Reads options and operands. At the top, the first operand is the name of a command, and what
follows it is left over; below it there may be up to `most` operands. `pending` is the option whose
value is due, and after `--` (`bare`) there are operands only. -/
def read (forms : List OptionForm) (top : Bool) (most : Option Nat) :
    (pending : Option OptionForm) → (bare : Bool) → Given → List String →
    Except Stop (Given × List String)
  | some _, _, _, [] => .error .usage
  | none, _, g, [] => .ok (g, [])
  | pending, bare, g, argument :: rest =>
    let operand : Except Stop (Given × List String) :=
      match pending with
      | some form => do read forms top most none false (← g.add form argument) rest
      | none =>
        if top then
          if bare then .error .usage else .ok (g, argument :: rest)
        else if argument.isEmpty || most.any (· ≤ g.operands.length) then .error .usage
        else read forms top most none bare { g with operands := g.operands ++ [argument] } rest
    if bare then operand
    else
      match Look.of argument, pending with
      | .plain, _ => operand
      | _, some _ => .error .usage
      | .end_, none => read forms top most none true g rest
      | .long name value, none => do
        let (g, pending) ← takeLong forms top name value g
        read forms top most pending false g rest
      | .letters letters, none => do
        let (g, pending) ← takeLetters forms top letters g
        read forms top most pending false g rest

/-! ## Requests -/

/-- A command's own options, how many operands it may have, and what it makes of them. -/
structure CommandForm where
  forms : List OptionForm
  most : Option Nat
  request? : Given → Option Request

def quietForm : OptionForm := ⟨"quiet", some 'q', none⟩

def solutionForm : OptionForm := ⟨"solution", none, some .text⟩

def commands : List (String × CommandForm) :=
  [("analyze", ⟨[solutionForm, quietForm], some 1, fun g => do
      return .analyze ⟨← g.operands.head?, g.value? "solution"⟩ (g.has "quiet")⟩),
    ("update", ⟨[solutionForm, quietForm], none, fun g =>
      match g.operands with
      | root :: file :: files =>
        some (.update ⟨root, g.value? "solution"⟩ (file :: files) (g.has "quiet"))
      | _ => none⟩),
    ("build", ⟨[], some 0, fun _ => some .build⟩),
    ("list", ⟨[⟨"key", none, some .text⟩, ⟨"format", none, some .format⟩], some 0, fun g =>
      some (.list (g.value? "key") (((g.value? "format").bind ListFormat.parse?).getD .table))⟩),
    ("suggest", ⟨[⟨"line", none, some .number⟩, ⟨"column", none, some .number⟩,
        ⟨"root", none, some .path⟩, ⟨"apply", none, some .number⟩], some 1, fun g => do
      return .suggest (← g.operands.head?) (← g.number? "line") (g.number? "column")
        (g.value? "root") (g.number? "apply")⟩),
    ("watch", ⟨[solutionForm, ⟨"enable", none, none⟩], some 1, fun g => do
      return .watch ⟨← g.operands.head?, g.value? "solution"⟩ (g.has "enable")⟩),
    ("print-default-config", ⟨[], some 0, fun _ => some .printDefaultConfig⟩),
    ("init-config", ⟨[⟨"output", some 'o', some .path⟩, ⟨"force", some 'f', none⟩], some 0,
      fun g => some (.initConfig ((g.value? "output").getD ".autotemplate.yml") (g.has "force"))⟩)]

def Arguments.parse (arguments : List String) : Except Stop Arguments := do
  let (above, rest) ← read globalForms true none none false .empty arguments
  match rest with
  | [] => throw .usage
  | name :: rest =>
    if name == "help" then throw .help
    match commands.lookup name with
    | none => throw .usage
    | some command =>
      let forms := command.forms ++ globalForms
      let (g, _) ← read forms false command.most none false .empty rest
      match command.request? g with
      | none => throw .usage
      | some request =>
        let given (name : String) : Option String := (g.value? name).or (above.value? name)
        return ⟨request, given "config", given "data-dir"⟩

end Foresight.Command
