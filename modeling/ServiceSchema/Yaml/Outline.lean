import ServiceSchema.Yaml.Token

/-! # The outline of a document
The nodes of a document in the order of the text: a collection, and then what is in it. What the open
collections go on with is kept as a list, the innermost first, so that one step at a time is enough. -/
namespace ServiceSchema.Yaml

inductive Content where
  | scalar (text : String) (isPlain : Bool) (tag : Option Tag)
  | alias (name : String)
  | sequence
  | mapping
deriving DecidableEq

structure Node where
  content : Content
  anchor : Option String
  mark : Mark
deriving DecidableEq

/-- A node of which nothing is written. -/
def Node.missing (mark : Mark) : Node := ⟨.scalar "" true none, none, mark⟩

/-- How the nodes of an outline end: the document is complete, and another one may follow, or there is a
fault. -/
inductive Ending where
  | complete (more : Bool)
  | fault (f : Fault)
deriving DecidableEq

structure Outline where
  nodes : List Node
  ending : Ending
deriving DecidableEq

namespace Outline

def cons (n : Node) (o : Outline) : Outline := { o with nodes := n :: o.nodes }

def fail (problem : String) (mark : Mark) (context : Option (String × Mark)) : Ending :=
  .fault (.malformed problem mark context)

/-- The tokens have run out: there is a fault where the next one would be. -/
def cut (fault : Option Fault) : Ending := fault.elim (.complete false) .fault

/-- What the tokens of a document do not tell: why they end, and what the handles of its tags stand for. -/
structure Setting where
  fault : Option Fault
  handles : Handles

/-- What an open collection goes on with. A collection that must begin with it remembers its place. -/
inductive Part where
  | blockKey (start : Mark)
  | blockValue
  | blockItem (start : Mark)
  /-- An item of a sequence that is not indented further than the mapping around it. -/
  | bareItem
  | flowKey (start : Mark) (first : Bool)
  | flowValue
  | noValue
  | flowItem (start : Mark) (first : Bool)
  /-- The key of a mapping with one member, which is written without braces. -/
  | pairKey
  | pairValue
deriving DecidableEq

/-- What a step comes to: perhaps a node, then the parts that take the place of the one before, and the
tokens that are left. -/
structure Step where
  node : Option Node
  parts : List Part
  rest : List Token

/-! ## Nodes -/

/-- Anchor and tag of a node, in any order, and the tokens after them. -/
structure Properties where
  anchor : Option String
  tag : Option (TagName × Mark)
  mark : Option Mark
  rest : List Token

def properties : List Token → Properties
  | ⟨.anchor a, m⟩ :: ⟨.tag t, n⟩ :: rest => ⟨some a, some (t, n), some m, rest⟩
  | ⟨.tag t, m⟩ :: ⟨.anchor a, _⟩ :: rest => ⟨some a, some (t, m), some m, rest⟩
  | ⟨.anchor a, m⟩ :: rest => ⟨some a, none, some m, rest⟩
  | ⟨.tag t, m⟩ :: rest => ⟨none, some (t, m), some m, rest⟩
  | rest => ⟨none, none, none, rest⟩

/-- The tag of a node that begins at `since`. -/
def tagOf (handles : Handles) (since : Mark) : Option (TagName × Mark) → Except Ending (Option Tag)
  | none => .ok none
  | some (name, mark) =>
    match name.resolve? handles with
    | some tag => .ok (some tag)
    | none => .error (fail "found undefined tag handle" mark (some ("while parsing a node", since)))

/-- The content that a token begins, and what it goes on with. Block collections are allowed in a block, and a
sequence without indentation of its own in a block mapping. -/
def contentOf (block bare : Bool) (tag : Option Tag) (t : Token) : Option (Content × List Part) :=
  match t.lexeme with
  | .scalar text isPlain => some (.scalar text isPlain tag, [])
  | .flowSequenceStart => some (.sequence, [.flowItem t.mark true])
  | .flowMappingStart => some (.mapping, [.flowKey t.mark true])
  | .blockSequenceStart => if block then some (.sequence, [.blockItem t.mark]) else none
  | .blockMappingStart => if block then some (.mapping, [.blockKey t.mark]) else none
  | .blockEntry => if bare then some (.sequence, [.bareItem]) else none
  | _ => none

/-- A node, and then `parts`. A node with properties may have no content; an item belongs to the sequence
that it begins. -/
def node (setting : Setting) (block bare : Bool) (parts : List Part) (tokens : List Token) :
    Except Ending Step :=
  match tokens with
  | ⟨.alias name, mark⟩ :: rest => .ok ⟨some ⟨.alias name, none, mark⟩, parts, rest⟩
  | _ =>
    let p := properties tokens
    match p.rest with
    | [] => .error (cut setting.fault)
    | t :: rest =>
      let mark := p.mark.getD t.mark
      match tagOf setting.handles mark p.tag with
      | .error ending => .error ending
      | .ok tag =>
        match contentOf block bare tag t with
        | some (content, opened) =>
          .ok ⟨some ⟨content, p.anchor, mark⟩, opened ++ parts,
            if t.lexeme = .blockEntry then t :: rest else rest⟩
        | none =>
          if p.mark.isSome then .ok ⟨some ⟨.scalar "" true tag, p.anchor, mark⟩, parts, t :: rest⟩
          else
            let context := if block then "while parsing a block node" else "while parsing a flow node"
            .error (fail "did not find expected node content" t.mark (some (context, mark)))

/-- As `node`, but a token of `stops` means that nothing is written; then the node is at `place`, or else
where the token is. -/
def nodeUnless (setting : Setting) (block bare : Bool) (stops : List Lexeme) (place : Option Mark)
    (parts : List Part) (tokens : List Token) : Except Ending Step :=
  match tokens with
  | [] => .error (cut setting.fault)
  | t :: rest =>
    if t.lexeme ∈ stops then .ok ⟨some (.missing (place.getD t.mark)), parts, t :: rest⟩
    else node setting block bare parts (t :: rest)

/-! ## Collections -/

/-- The place after an indicator. -/
def after (mark : Mark) : Mark := ⟨mark.line, mark.column + 1⟩

def readBlockKey (setting : Setting) (start : Mark) : List Token → Except Ending Step
  | [] => .error (cut setting.fault)
  | ⟨.key, mark⟩ :: rest =>
    nodeUnless setting true true [.key, .value, .blockEnd] (after mark) [.blockValue, .blockKey start] rest
  | ⟨.blockEnd, _⟩ :: rest => .ok ⟨none, [], rest⟩
  | t :: _ => .error (fail "did not find expected key" t.mark (some ("while parsing a block mapping", start)))

def readBlockValue (setting : Setting) : List Token → Except Ending Step
  | [] => .error (cut setting.fault)
  | ⟨.value, mark⟩ :: rest =>
    nodeUnless setting true true [.key, .value, .blockEnd] (after mark) [] rest
  | t :: rest => .ok ⟨some (.missing t.mark), [], t :: rest⟩

def readBlockItem (setting : Setting) (start : Mark) : List Token → Except Ending Step
  | [] => .error (cut setting.fault)
  | ⟨.blockEntry, mark⟩ :: rest =>
    nodeUnless setting true false [.blockEntry, .blockEnd] (after mark) [.blockItem start] rest
  | ⟨.blockEnd, _⟩ :: rest => .ok ⟨none, [], rest⟩
  | t :: _ =>
    .error (fail "did not find expected '-' indicator" t.mark
      (some ("while parsing a block collection", start)))

def readBareItem (setting : Setting) : List Token → Except Ending Step
  | [] => .error (cut setting.fault)
  | ⟨.blockEntry, mark⟩ :: rest =>
    nodeUnless setting true false [.blockEntry, .key, .value, .blockEnd] (after mark) [.bareItem] rest
  | tokens => .ok ⟨none, [], tokens⟩

/-- What follows in a flow collection that `close` ends: nothing if that comes next, or else `next` after a
comma, which the first one does without. -/
def flowNext (setting : Setting) (close : Lexeme) (first : Bool) (problem context : String) (start : Mark)
    (next : List Token → Except Ending Step) : List Token → Except Ending Step
  | [] => .error (cut setting.fault)
  | t :: rest =>
    if t.lexeme = close then .ok ⟨none, [], rest⟩
    else if first then next (t :: rest)
    else if t.lexeme = .flowEntry then
      match rest with
      | [] => .error (cut setting.fault)
      | u :: rest => if u.lexeme = close then .ok ⟨none, [], rest⟩ else next (u :: rest)
    else .error (fail problem t.mark (some (context, start)))

def readFlowKey (setting : Setting) (start : Mark) : List Token → Except Ending Step
  | ⟨.key, _⟩ :: rest =>
    nodeUnless setting false false [.value, .flowEntry, .flowMappingEnd] none
      [.flowValue, .flowKey start false] rest
  | tokens => node setting false false [.noValue, .flowKey start false] tokens

def readFlowValue (setting : Setting) (close : Lexeme) : List Token → Except Ending Step
  | [] => .error (cut setting.fault)
  | ⟨.value, _⟩ :: rest => nodeUnless setting false false [.flowEntry, close] none [] rest
  | t :: rest => .ok ⟨some (.missing t.mark), [], t :: rest⟩

def readNoValue (setting : Setting) : List Token → Except Ending Step
  | [] => .error (cut setting.fault)
  | t :: rest => .ok ⟨some (.missing t.mark), [], t :: rest⟩

def readFlowItem (setting : Setting) (start : Mark) : List Token → Except Ending Step
  | ⟨.key, mark⟩ :: rest =>
    .ok ⟨some ⟨.mapping, none, mark⟩, [.pairKey, .pairValue, .flowItem start false], rest⟩
  | tokens => node setting false false [.flowItem start false] tokens

/-- A key of which nothing is written takes the token after it along. -/
def readPairKey (setting : Setting) : List Token → Except Ending Step
  | [] => .error (cut setting.fault)
  | t :: rest =>
    if t.lexeme ∈ [.value, .flowEntry, .flowSequenceEnd] then .ok ⟨some (.missing (after t.mark)), [], rest⟩
    else node setting false false [] (t :: rest)

def Part.step (setting : Setting) : Part → List Token → Except Ending Step
  | .blockKey start => readBlockKey setting start
  | .blockValue => readBlockValue setting
  | .blockItem start => readBlockItem setting start
  | .bareItem => readBareItem setting
  | .flowKey start first =>
    flowNext setting .flowMappingEnd first "did not find expected ',' or '\x7d'"
      "while parsing a flow mapping" start (readFlowKey setting start)
  | .flowValue => readFlowValue setting .flowMappingEnd
  | .noValue => readNoValue setting
  | .flowItem start first =>
    flowNext setting .flowSequenceEnd first "did not find expected ',' or ']'"
      "while parsing a flow sequence" start (readFlowItem setting start)
  | .pairKey => readPairKey setting
  | .pairValue => readFlowValue setting .flowSequenceEnd

/-! ## Documents -/

/-- After the root: the document may be closed, and another may follow. -/
def afterRoot (fault : Option Fault) : List Token → Outline
  | [] => ⟨[], cut fault⟩
  | tokens =>
    match tokens.dropWhile fun t => t.lexeme = .documentEnd with
    | ⟨.streamEnd, _⟩ :: _ => ⟨[], .complete false⟩
    | _ => ⟨[], .complete true⟩

/-- Takes at most `n` steps. -/
def run (setting : Setting) : Nat → List Part → List Token → Outline
  | 0, _, _ => ⟨[], cut setting.fault⟩
  | _ + 1, [], tokens => afterRoot setting.fault tokens
  | n + 1, p :: parts, tokens =>
    match p.step setting tokens with
    | .error ending => ⟨[], ending⟩
    | .ok s =>
      let o := run setting n (s.parts ++ parts) s.rest
      match s.node with
      | some m => o.cons m
      | none => o

/-- A step takes a token along or ends a part, and no token opens more than four parts. -/
def stepBound (tokens : List Token) : Nat := 5 * tokens.length + 1

def root (setting : Setting) (tokens : List Token) : Outline :=
  match node setting true false [] tokens with
  | .error ending => ⟨[], ending⟩
  | .ok s =>
    let o := run setting (stepBound tokens) s.parts s.rest
    match s.node with
    | some m => o.cons m
    | none => o

def content (setting : Setting) : List Token → Outline
  | [] => ⟨[], cut setting.fault⟩
  | t :: rest =>
    match t.lexeme with
    | .directive _ | .documentStart | .documentEnd | .streamEnd =>
      (afterRoot setting.fault (t :: rest)).cons (.missing t.mark)
    | _ => root setting (t :: rest)

/-! ## Directives -/

/-- Versions 1.1 and 1.2 are understood. -/
def understands (major minor : Nat) : Bool := major = 1 && (minor = 1 || minor = 2)

/-- What stands before the start of a document: the version once at most, and every handle once at most. -/
def directives (fault : Option Fault) (versioned : Bool) (handles : Handles) :
    List Token → Except Ending (Handles × List Token)
  | [] => .error (cut fault)
  | ⟨.directive (.version major minor), mark⟩ :: rest =>
    if versioned then .error (fail "found duplicate %YAML directive" mark none)
    else if !understands major minor then .error (fail "found incompatible YAML document" mark none)
    else directives fault true handles rest
  | ⟨.directive (.tag handle octets), mark⟩ :: rest =>
    if handles.any (·.1 = handle) then .error (fail "found duplicate %TAG directive" mark none)
    else directives fault versioned ((handle, octets) :: handles) rest
  | t :: rest => .ok (handles, t :: rest)

/-- A document with an explicit start. Its directives go before the standard handles. -/
def explicitDocument (fault : Option Fault) (tokens : List Token) : Outline :=
  match directives fault false [] tokens with
  | .error ending => ⟨[], ending⟩
  | .ok (_, []) => ⟨[], cut fault⟩
  | .ok (handles, t :: rest) =>
    if t.lexeme = .documentStart then content ⟨fault, handles ++ Handles.standard⟩ rest
    else ⟨[], fail "did not find expected <document start>" t.mark none⟩

/-- The first document of a text. -/
def document (s : TokenStream) : Outline :=
  match s.tokens with
  | [] => ⟨[], cut s.fault⟩
  | t :: rest =>
    match t.lexeme with
    | .streamEnd => ⟨[], .complete false⟩
    | .directive _ | .documentStart => explicitDocument s.fault (t :: rest)
    | _ => root ⟨s.fault, Handles.standard⟩ (t :: rest)

end Outline
end ServiceSchema.Yaml
