import Foresight.Yaml.Layout
import Foresight.Yaml.Node

/-!
# Documents

Tokens are read as one document by recursive descent. Besides the tokens that are left, the reading
knows the handles of tags and the names that have been given so far.

An anchor has a number: how many different names there were before it. So a name that is given again
has a new number, which the next new name shares. An alias holds the number that its name has at
that point, and stands for the node that was last begun with that number anywhere in the document.

Each function of the recursion takes `room`, which bounds the depth of its calls and is never short
for that many tokens: between two calls that take no token stands one that does.
-/

namespace Foresight.Yaml

/-- What a reading of tokens has at hand. -/
structure Reading where
  tokens : List Token
  handles : List (String × String) := Tag.handles
  /-- The names so far, with the number that each has now. -/
  names : List (String × Nat) := []
  anchors : List (Nat × Node) := []

/-- A part of a document is read or refused. -/
abbrev Reader := StateT Reading Option

namespace Reader

/-! ## Tokens -/

def peek? : Reader (Option Token) := return (← get).tokens.head?

def skip : Reader Unit := modify fun r => { r with tokens := r.tokens.tail }

def next : Reader Token := do
  match ← peek? with
  | some t => skip; return t
  | none => failure

def expect (t : Token) : Reader Unit := do
  if (← next) == t then return else failure

/-- Takes the next token if it is a certain one. -/
def takes (t : Token) : Reader Bool := do
  if (← peek?) == some t then skip; return true else return false

/-- A node, unless one of some tokens says that it is left out. -/
def orAbsent (ends : List Token) (node : Reader Node) : Reader Node := do
  if (← peek?).any ends.contains then return .absent else node

/-! ## Anchors -/

/-- The number for a name that is given to the node that begins here. -/
def open_ (name : String) : Reader Nat := do
  let r ← get
  let anchor := r.names.length
  set { r with
    names := (name, anchor) :: r.names.filter (·.1 != name)
    anchors := r.anchors.filter (·.1 != anchor) }
  return anchor

/-- Puts down the node for a number. A node with that number inside of it was begun later. -/
def close (anchor : Nat) (node : Node) : Reader Unit :=
  modify fun r =>
    if (r.anchors.lookup anchor).isSome then r
    else { r with anchors := (anchor, node) :: r.anchors }

/-- The number that a name has now. -/
def anchorOf (name : String) : Reader Nat := do
  match (← get).names.lookup name with
  | some anchor => return anchor
  | none => failure

/-! ## Properties -/

structure Properties where
  anchor : Option Nat := none
  tag : Option String := none

def anchor? : Reader (Option Nat) := do
  match ← peek? with
  | some (.anchor name) => skip; return some (← open_ name)
  | _ => return none

def tag? : Reader (Option String) := do
  match ← peek? with
  | some (.tag tag) =>
    skip
    match tag.resolve? (← get).handles with
    | some text => return some text
    | none => failure
  | _ => return none

/-- An anchor and a tag, in either order. -/
def properties : Reader Properties := do
  match ← anchor? with
  | some anchor => return ⟨some anchor, ← tag?⟩
  | none =>
    match ← tag? with
    | some tag => return ⟨← anchor?, some tag⟩
    | none => return {}

/-! ## Nodes -/

mutual

/-- A node. A block collection can stand only in another one or by itself (`block`); a sequence that
is the value of a key may do without indentation (`level`). -/
def node (block level : Bool) : (room : Nat) → Reader Node
  | 0 => failure
  | room + 1 => do
    match ← peek? with
    | some (.alias name) => skip; return .alias (← anchorOf name)
    | _ =>
      let properties ← properties
      let node ← content block level properties room
      match properties.anchor with
      | some anchor => close anchor node; return node
      | none => return node

/-- What stands behind the properties of a node, if there is anything. -/
def content (block level : Bool) (properties : Properties) : (room : Nat) → Reader Node
  | 0 => failure
  | room + 1 => do
    match ← peek?, block with
    | some (.scalar style text), _ =>
      skip
      return .scalar (properties.tag.filter (· != Tag.plain)) style text
    | some .flowSequence, _ => skip; return .sequence (← flowItems true [] room)
    | some .flowMapping, _ => skip; return .mapping (← flowEntries true [] room)
    | some .blockSequence, true => skip; return .sequence (← blockItems [] room)
    | some .blockMapping, true => skip; return .mapping (← blockEntries [] room)
    | t, _ =>
      if level && t == some .blockEntry then return .sequence (← levelItems [] room)
      else if properties.anchor.isSome || properties.tag.isSome then
        return .scalar properties.tag .plain ""
      else failure

def blockItems (items : List Node) : (room : Nat) → Reader (List Node)
  | 0 => failure
  | room + 1 => do
    match ← next with
    | .blockEnd => return items.reverse
    | .blockEntry =>
      let item ← orAbsent [.blockEntry, .blockEnd] (node true false room)
      blockItems (item :: items) room
    | _ => failure

/-- The items of a sequence that ends where no item follows. -/
def levelItems (items : List Node) : (room : Nat) → Reader (List Node)
  | 0 => failure
  | room + 1 => do
    if ← takes .blockEntry then
      let item ← orAbsent [.blockEntry, .key, .value, .blockEnd] (node true false room)
      levelItems (item :: items) room
    else return items.reverse

def blockEntries (entries : List (Node × Node)) : (room : Nat) → Reader (List (Node × Node))
  | 0 => failure
  | room + 1 => do
    match ← next with
    | .blockEnd => return entries.reverse
    | .key =>
      let part := orAbsent [.key, .value, .blockEnd] (node true true room)
      let key ← part
      let value ← if ← takes .value then part else pure .absent
      blockEntries ((key, value) :: entries) room
    | _ => failure

/-- The items of a sequence in brackets; before all but the first there is a comma. -/
def flowItems (first : Bool) (items : List Node) : (room : Nat) → Reader (List Node)
  | 0 => failure
  | room + 1 => do
    if ← takes .flowSequenceEnd then return items.reverse
    else
      if !first then expect .flowEntry
      if ← takes .flowSequenceEnd then return items.reverse
      else
        let item ← if ← takes .key then flowPair room else node false false room
        flowItems false (item :: items) room

/-- A mapping of one entry that stands as an item in brackets, from behind its mark. Where its key
is left out, the token in the place of the key is lost. -/
def flowPair : (room : Nat) → Reader Node
  | 0 => failure
  | room + 1 => do
    let key ←
      if (← peek?).any [Token.value, .flowEntry, .flowSequenceEnd].contains then
        skip
        pure .absent
      else node false false room
    let value ←
      if ← takes .value then orAbsent [.flowEntry, .flowSequenceEnd] (node false false room)
      else pure .absent
    return .mapping [(key, value)]

/-- The entries of a mapping in braces; before all but the first there is a comma. -/
def flowEntries (first : Bool) (entries : List (Node × Node)) :
    (room : Nat) → Reader (List (Node × Node))
  | 0 => failure
  | room + 1 => do
    if ← takes .flowMappingEnd then return entries.reverse
    else
      if !first then expect .flowEntry
      if ← takes .flowMappingEnd then return entries.reverse
      else
        let entry ←
          if ← takes .key then do
            let key ← orAbsent [.value, .flowEntry, .flowMappingEnd] (node false false room)
            let value ←
              if ← takes .value then orAbsent [.flowEntry, .flowMappingEnd] (node false false room)
              else pure .absent
            pure (key, value)
          else do
            let key ← node false false room
            pure (key, .absent)
        flowEntries false (entry :: entries) room

end

/-! ## Directives and documents -/

/-- Adds what a directive says. There is one version at most, and a handle is told once. -/
def directives (versioned : Bool) (told : List (String × String)) :
    List Token → Option (List (String × String) × List Token)
  | .directive (.version major minor) :: rest =>
    if versioned || major != 1 || (minor != 1 && minor != 2) then none
    else directives true told rest
  | .directive (.shorthand handle stands) :: rest =>
    if (told.lookup handle).isSome then none
    else directives versioned ((handle, stands) :: told) rest
  | tokens => some (told, tokens)

/-- The root of a document. Without directives, its mark may be missing. -/
def root (room : Nat) : Reader Node := do
  let r ← get
  match r.tokens with
  | [] => return .absent
  | .directive _ :: _ | .documentStart :: _ =>
    match directives false [] r.tokens with
    | some (told, .documentStart :: tokens) =>
      set { r with tokens, handles := told ++ Tag.handles }
      match tokens with
      | [] | .directive _ :: _ | .documentStart :: _ | .documentEnd :: _ => return .absent
      | _ => node true false room
    | _ => failure
  | _ => node true false room

end Reader

/-- Reads tokens as one document, after which there are end marks at most. -/
def Document.ofTokens? (tokens : List Token) : Option Document := do
  let (root, r) ← (Reader.root (4 * tokens.length + 8)).run { tokens }
  if r.tokens.all (· == .documentEnd) then some ⟨root, r.anchors⟩ else none

def Document.read? (text : String) : Option Document :=
  (Token.ofText? text).bind Document.ofTokens?

end Foresight.Yaml
