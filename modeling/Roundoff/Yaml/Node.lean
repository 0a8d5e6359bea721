/-
# Nodes

The nodes of a YAML document.  A node may be named by an anchor, and an alias stands for the node
with that name.  Anchors are numbered, and a document lists the place of the node for each number;
the nodes are counted in the order in which they begin.
-/
import Roundoff.Yaml.Token
import Roundoff.Table

namespace Roundoff

namespace Yaml

/-- A node. -/
inductive Node where
  /-- A node that stands for the one with the given number. -/
  | alias (number : Nat)
  | scalar (tag : Option Octets) (style : ScalarStyle) (text : String)
  | sequence (tag : Option Octets) (items : List Node)
  | mapping (tag : Option Octets) (pairs : List (Node × Node))
deriving Repr

namespace Node

/-- The node for an absent value. -/
def absent : Node := scalar none .plain ""

instance : Inhabited Node := ⟨absent⟩

mutual

/-- A node and the nodes within it, in the order in which they begin. -/
def all : Node → List Node
  | sequence tag items => sequence tag items :: allOfItems items
  | mapping tag pairs => mapping tag pairs :: allOfPairs pairs
  | n => [n]

/-- The nodes within a sequence. -/
def allOfItems : List Node → List Node
  | [] => []
  | n :: ns => all n ++ allOfItems ns

/-- The nodes within a mapping. -/
def allOfPairs : List (Node × Node) → List Node
  | [] => []
  | (k, v) :: ps => all k ++ all v ++ allOfPairs ps

end

end Node

/-- A document. -/
structure Document where
  /-- The node that is the document. -/
  root : Node
  /-- The place of the node that an alias with a given number stands for. -/
  anchors : Table Nat Nat
deriving Repr

/-- The node that a node of a document stands for. -/
def Document.resolve? (d : Document) : Node → Option Node
  | .alias number => (d.anchors.get? number).bind fun n => d.root.all[n]?
  | n => some n

/-! ## Reading tokens -/

/-- The tokens of a document while its nodes are read. -/
structure NodeReader where
  /-- The tokens that have not been read. -/
  tokens : List Token
  /-- What the handles of tags stand for. -/
  handles : List (List Char × Octets)
  /-- The number of the last anchor with a given name. -/
  names : Table String Nat := ∅
  /-- The place of the last node whose anchor has a given number. -/
  anchors : Table Nat Nat := ∅
  /-- The number of nodes that have begun. -/
  nodes : Nat := 0

/-- Reading part of a document, which fails where a token is out of place. -/
abbrev Reading := StateT NodeReader Option

namespace Reading

/-- The next token. -/
def peek? : Reading (Option Token) := return (← get).tokens.head?

/-- Pass over the next token. -/
def skip : Reading Unit := modify fun r => { r with tokens := r.tokens.tail }

/-- Whether the next token is one of the given tokens. -/
def isAt (ts : List Token) : Reading Bool := return (← peek?).any ts.contains

/-- Begin a node.  The number of its anchor is the number of names that have occurred before; where
several anchors share a number, the last one counts. -/
def begin (anchor : Option String) : Reading Unit :=
  modify fun r =>
    match anchor with
    | none => { r with nodes := r.nodes + 1 }
    | some name =>
      { r with
        nodes := r.nodes + 1
        names := r.names.insert name r.names.size
        anchors := r.anchors.insert r.names.size r.nodes }

/-- The node for a value that is left out. -/
def leftOut : Reading Node := do
  begin none
  return .absent

/-- The tokens with which a node in a block collection is left out. -/
def blockGap : List Token := [.key, .value, .blockEnd]

/-- Read an anchor and a tag in either order, if they are there. -/
def properties : Reading (Option String × Option Octets) := do
  let tagOf (t : WrittenTag) : Reading Octets := do
    skip
    t.resolve? (← get).handles
  match ← peek? with
  | some (.anchor name) =>
    skip
    match ← peek? with
    | some (.tag t) => return (some name, some (← tagOf t))
    | _ => return (some name, none)
  | some (.tag t) =>
    let tag ← tagOf t
    match ← peek? with
    | some (.anchor name) =>
      skip
      return (some name, some tag)
    | _ => return (none, some tag)
  | _ => return (none, none)

/-- The tag of a scalar.  The tag `!` says no more than that there is a tag. -/
def scalarTag (tag : Option Octets) : Option Octets := if tag = some (octets "!") then none else tag

mutual

/-- Read a node.  Block collections are possible only in other block collections (`inBlock`), and
the items of a sequence need not be indented within a mapping (`inMapping`). -/
def node : (fuel : Nat) → (inBlock inMapping : Bool) → Reading Node
  | 0, _, _ => failure
  | fuel + 1, inBlock, inMapping => do
    if let some (.alias name) ← peek? then
      skip
      begin none
      return .alias (← (← get).names.get? name)
    let (anchor, tag) ← properties
    begin anchor
    match ← peek? with
    | some (.scalar style text) =>
      skip
      return .scalar (scalarTag tag) style text
    | some .flowSequence =>
      skip
      return .sequence tag (← flowItems fuel true)
    | some .flowMapping =>
      skip
      return .mapping tag (← flowPairs fuel true)
    | t =>
      if inMapping ∧ t = some .item then return .sequence tag (← mappingItems fuel)
      else if inBlock ∧ t = some .blockSequence then
        skip
        return .sequence tag (← blockItems fuel)
      else if inBlock ∧ t = some .blockMapping then
        skip
        return .mapping tag (← blockPairs fuel)
      else if anchor.isSome ∨ tag.isSome then return .scalar tag .plain ""
      else failure

/-- Read the items of a sequence that is indented. -/
def blockItems : (fuel : Nat) → Reading (List Node)
  | 0 => failure
  | fuel + 1 => do
    match ← peek? with
    | some .item =>
      skip
      let x ← if ← isAt [.item, .blockEnd] then leftOut else node fuel true false
      return x :: (← blockItems fuel)
    | some .blockEnd =>
      skip
      return []
    | _ => failure

/-- Read the items of a sequence that is not indented within a mapping. -/
def mappingItems : (fuel : Nat) → Reading (List Node)
  | 0 => failure
  | fuel + 1 => do
    match ← peek? with
    | some .item =>
      skip
      let x ← if ← isAt (.item :: blockGap) then leftOut else node fuel true false
      return x :: (← mappingItems fuel)
    | _ => return []

/-- Read the pairs of a mapping that is indented. -/
def blockPairs : (fuel : Nat) → Reading (List (Node × Node))
  | 0 => failure
  | fuel + 1 => do
    match ← peek? with
    | some .key =>
      skip
      let k ← if ← isAt blockGap then leftOut else node fuel true true
      let v ← blockValue fuel
      return (k, v) :: (← blockPairs fuel)
    | some .blockEnd =>
      skip
      return []
    | _ => failure

/-- Read the value of a pair of a mapping that is indented. -/
def blockValue : (fuel : Nat) → Reading Node
  | 0 => failure
  | fuel + 1 => do
    if ← isAt [.value] then
      skip
      if ← isAt blockGap then leftOut else node fuel true true
    else leftOut

/-- Read the items of a sequence in brackets, the first one of which has no comma in front. -/
def flowItems : (fuel : Nat) → (first : Bool) → Reading (List Node)
  | 0, _ => failure
  | fuel + 1, first => do
    let closed ← isAt [.flowSequenceEnd]
    if !closed && !first then
      if ← isAt [.comma] then skip else failure
    match ← peek? with
    | some .flowSequenceEnd =>
      skip
      return []
    | some .key =>
      skip
      begin none
      let x ← flowPair fuel
      return x :: (← flowItems fuel false)
    | _ =>
      let x ← node fuel false false
      return x :: (← flowItems fuel false)

/-- Read a pair that is an item of a sequence in brackets.  A token in the place of the key is lost. -/
def flowPair : (fuel : Nat) → Reading Node
  | 0 => failure
  | fuel + 1 => do
    let k ← if ← isAt [.value, .comma, .flowSequenceEnd] then
        skip
        leftOut
      else node fuel false false
    let v ← flowValue fuel .flowSequenceEnd
    return .mapping none [(k, v)]

/-- Read the pairs of a mapping in braces, the first one of which has no comma in front. -/
def flowPairs : (fuel : Nat) → (first : Bool) → Reading (List (Node × Node))
  | 0, _ => failure
  | fuel + 1, first => do
    let closed ← isAt [.flowMappingEnd]
    if !closed && !first then
      if ← isAt [.comma] then skip else failure
    match ← peek? with
    | some .flowMappingEnd =>
      skip
      return []
    | some .key =>
      skip
      let k ← if ← isAt [.value, .comma, .flowMappingEnd] then leftOut else node fuel false false
      let v ← flowValue fuel .flowMappingEnd
      return (k, v) :: (← flowPairs fuel false)
    | _ =>
      let k ← node fuel false false
      let v ← leftOut
      return (k, v) :: (← flowPairs fuel false)

/-- Read the value of a pair in brackets that end with the given token. -/
def flowValue : (fuel : Nat) → (closing : Token) → Reading Node
  | 0, _ => failure
  | fuel + 1, closing => do
    if ← isAt [.value] then
      skip
      if ← isAt [.comma, closing] then leftOut else node fuel false false
    else leftOut

end

end Reading

/-! ## Documents -/

/-- The directives in front of a document. -/
def directivesOf (ts : List Token) : List Directive :=
  ts.filterMap fun
    | .directive d => some d
    | _ => none

/-- Whether a token ends the document in front of it. -/
def Token.endsDocument : Token → Bool
  | .directive _ | .documentStart | .documentEnd => true
  | _ => false

/-- Read the node of a document from its tokens.  There is one if the document has no mark in front
(`bare`). -/
def documentOf? (bare : Bool) (handles : List (List Char × Octets)) (ts : List Token) :
    Option (Document × List Token) := do
  let reader : NodeReader := { tokens := ts, handles := handles }
  let isEmpty := !bare && ts.head?.all Token.endsDocument
  let reading := if isEmpty then Reading.leftOut else Reading.node (4 * ts.length + 4) true false
  let (root, r) ← reading.run reader
  return (⟨root, r.anchors⟩, r.tokens)

/-- The document of which a list of tokens consists, together with its directives and marks.
Without tokens the document is an absent value. -/
def Document.ofTokens? (ts : List Token) : Option Document := do
  if ts.isEmpty then return ⟨.absent, ∅⟩
  let isDirective (t : Token) : Bool := match t with
    | .directive _ => true
    | _ => false
  let directives := ts.takeWhile isDirective
  let body := ts.dropWhile isDirective
  let marked := body.head? = some .documentStart
  if !marked && !directives.isEmpty then none
  let handles ← handlesOf? (directivesOf directives)
  let (d, rest) ← documentOf? (!marked) handles (if marked then body.tail else body)
  if (rest.dropWhile (· = .documentEnd)).isEmpty then return d else none

/-- Read a text that consists of one document. -/
def Document.read? (text : String) : Option Document := (tokens? text).bind Document.ofTokens?

end Yaml

end Roundoff
