import ServiceSchema.Yaml.Cursor

/-! # Scalars
The text of a scalar in each of its styles: plain, in single or double quotes, literal or folded block. A
line break within a scalar folds to a blank, several breaks to one fewer; only a literal block keeps them. -/
namespace ServiceSchema.Yaml

/-! ## Gaps -/

/-- The blanks and line breaks between two words of a flow scalar. -/
structure Gap where
  /-- Blanks, when there is no break. -/
  blanks : List Char
  breaks : List Char
  /-- The first tab that stands where a line is still being indented. -/
  tab : Option Mark
deriving DecidableEq

namespace Gap

def empty : Gap := ⟨[], [], none⟩

def isMultiline (g : Gap) : Bool := !g.breaks.isEmpty

/-- Adds a blank at `mark`; a line has to reach column `indent`. -/
def addBlank (g : Gap) (c : Char) (indent : Nat) (mark : Mark) : Gap :=
  if g.isMultiline then
    if c = '\t' ∧ mark.column < indent then { g with tab := g.tab.or (some mark) } else g
  else { g with blanks := g.blanks ++ [c] }

def addBreak (g : Gap) (c : Char) : Gap := { g with breaks := g.breaks ++ [c] }

/-- What a gap folds to. -/
def fold (g : Gap) : List Char :=
  match g.breaks with
  | [] => g.blanks
  | ['\n'] => [' ']
  | '\n' :: more => more
  | breaks => breaks

/-- Reads a gap of at most `n` characters; `indent` is the column that a line must reach. -/
def readWithin (indent : Nat) : Nat → Gap → Cursor → Gap × Cursor
  | 0, g, c => (g, c)
  | n + 1, g, c =>
    match c.rest with
    | [] => (g, c)
    | x :: _ =>
      if isBlank x then readWithin indent n (g.addBlank x indent c.mark) (c.skip 1)
      else
        match takeBreak? c.rest with
        | some (b, rest) => readWithin indent n (g.addBreak b) (c.nextLine rest)
        | none => (g, c)

def read (indent : Nat) (c : Cursor) : Gap × Cursor := readWithin indent c.rest.length empty c

end Gap

namespace Scalar

/-! ## Plain scalars -/

def isFlowIndicator (c : Char) : Bool := c = ',' || c = '[' || c = ']' || c = '\x7b' || c = '\x7d'

/-- One word of a plain scalar. A colon ends it before a blank, an indicator within a flow collection. -/
def word (flow : Bool) : List Char → List Char
  | [] => []
  | c :: cs =>
    if isSpace c || (c = ':' && wordEnds cs) || (flow && isFlowIndicator c) then []
    else c :: word flow cs

/-- A colon within a word of a flow collection must not run into an indicator. -/
def strayColon? : List Char → Option Nat
  | [] => none
  | c :: cs =>
    if isSpace c || isFlowIndicator c then none
    else if c = ':' && cs.head?.any (fun d => isFlowIndicator d || d = '?') then some 0
    else (strayColon? cs).map (· + 1)

/-- The words of a plain scalar after `gap`; also tells whether it ends with a line break. -/
def plainFrom (flow : Bool) (indent : Nat) (start : Mark) :
    Nat → Gap → Cursor → Except Fault (List Char × Bool × Cursor)
  | 0, gap, c => .ok ([], gap.isMultiline, c)
  | n + 1, gap, c =>
    if c.atIndicator || c.rest.head? = some '#' then .ok ([], gap.isMultiline, c)
    else
      let fault (problem : String) (mark : Mark) : Fault :=
        .malformed problem mark (some ("while scanning a plain scalar", start))
      match (if flow then strayColon? c.rest else none) with
      | some k => .error (fault "found unexpected ':'" (c.skip k).mark)
      | none =>
        let w := word flow c.rest
        if w = [] then .ok ([], gap.isMultiline, c)
        else
          let (next, after) := Gap.read indent (c.skip w.length)
          if let some mark := next.tab then
            .error (fault "found a tab character that violates indentation" mark)
          else if next = .empty then .ok (gap.fold ++ w, false, after)
          else if !flow && after.column < indent then .ok (gap.fold ++ w, next.isMultiline, after)
          else (plainFrom flow indent start n next after).map fun r => (gap.fold ++ w ++ r.1, r.2)

def plain (flow : Bool) (indent : Nat) (c : Cursor) : Except Fault (List Char × Bool × Cursor) :=
  plainFrom flow indent c.mark c.rest.length .empty c

/-! ## Quoted scalars -/

def simpleEscape? (c : Char) : Option Char :=
  match c with
  | '0' => some '\x00'
  | 'a' => some '\x07'
  | 'b' => some '\x08'
  | 't' | '\t' => some '\t'
  | 'n' => some '\n'
  | 'v' => some '\x0b'
  | 'f' => some '\x0c'
  | 'r' => some '\r'
  | 'e' => some '\x1b'
  | ' ' => some ' '
  | '"' => some '"'
  | '/' => some '/'
  | '\\' => some '\\'
  | 'N' => some (Char.ofNat 0x85)
  | '_' => some (Char.ofNat 0xA0)
  | 'L' => some (Char.ofNat 0x2028)
  | 'P' => some (Char.ofNat 0x2029)
  | _ => none

def hexLength? (c : Char) : Option Nat :=
  match c with
  | 'x' => some 2
  | 'u' => some 4
  | 'U' => some 8
  | _ => none

/-- The character of an escape, and how many characters the escape takes. -/
def escape (start : Mark) (c : Cursor) : Except Fault (Char × Nat) :=
  let fault (problem : String) (mark : Mark) : Fault :=
    .malformed problem mark (some ("while parsing a quoted scalar", start))
  match c.rest with
  | _ :: e :: cs =>
    match simpleEscape? e, hexLength? e with
    | some x, _ => .ok (x, 2)
    | none, some n =>
      let values := (cs.take n).filterMap hexValue?
      if values.length < n then .error (fault "did not find expected hexadecimal number" (c.skip 2).mark)
      else
        let code := values.foldl (fun v d => v * 16 + d) 0
        if code.isValidChar then .ok (Char.ofNat code, n + 2)
        else .error (fault "found invalid Unicode character escape code" (c.skip 2).mark)
    | none, none => .error (fault "found unknown escape character" c.mark)
  | _ => .error (fault "found unknown escape character" c.mark)

def quotedFault (problem : String) (start : Mark) (c : Cursor) : Fault :=
  .malformed problem c.mark (some ("while scanning a quoted scalar", start))

/-- Reads a scalar in quotes up to the closing quote. -/
def quotedFrom (double : Bool) (start : Mark) : Nat → Cursor → Except Fault (List Char × Cursor)
  | 0, c => .error (quotedFault "found unexpected end of stream" start c)
  | n + 1, c =>
    let quote := if double then '"' else '\''
    if c.atIndicator then .error (quotedFault "found unexpected document indicator" start c)
    else
      match c.rest with
      | [] => .error (quotedFault "found unexpected end of stream" start c)
      | x :: cs =>
        if isSpace x then
          let (gap, after) := Gap.read 0 c
          (quotedFrom double start n after).map fun r => (gap.fold ++ r.1, r.2)
        else if !double && x = quote && cs.head? = some quote then
          (quotedFrom double start n (c.skip 2)).map fun r => (quote :: r.1, r.2)
        else if x = quote then .ok ([], c.skip 1)
        else if double && x = '\\' then
          match takeBreak? cs with
          | some (_, rest) =>
            let (gap, after) := Gap.read 0 ((c.skip 1).nextLine rest)
            (quotedFrom double start n after).map fun r => (gap.breaks ++ r.1, r.2)
          | none => do
            let (e, k) ← escape start c
            let (text, after) ← quotedFrom double start n (c.skip k)
            return (e :: text, after)
        else (quotedFrom double start n (c.skip 1)).map fun r => (x :: r.1, r.2)

def quoted (double : Bool) (c : Cursor) : Except Fault (List Char × Cursor) :=
  quotedFrom double c.mark (c.rest.length + 1) (c.skip 1)

/-! ## Block scalars -/

inductive Chomping where
  | strip
  | clip
  | keep
deriving DecidableEq

/-- The header of a block scalar: how to treat the breaks at its end, and the indentation it asks for. -/
def header (start : Mark) (c : Cursor) : Except Fault (Chomping × Option Nat × Cursor) :=
  let chomping? (x : Char) : Option Chomping :=
    if x = '+' then some .keep else if x = '-' then some .strip else none
  let digit (x : Char) (c : Cursor) : Except Fault (Option Nat × Cursor) :=
    if x = '0' then
      .error (.malformed "found an indentation indicator equal to 0" c.mark
        (some ("while scanning a block scalar", start)))
    else if x.isDigit then .ok (some (x.toNat - '0'.toNat), c.skip 1)
    else .ok (none, c)
  match c.rest with
  | [] => .ok (.clip, none, c)
  | x :: cs =>
    match chomping? x with
    | some chomping => do
      let (indent, c) ← digit (cs.headD ' ') (c.skip 1)
      return (chomping, indent, c)
    | none => do
      let (indent, c) ← digit x c
      match indent, c.rest with
      | some _, y :: _ =>
        match chomping? y with
        | some chomping => return (chomping, indent, c.skip 1)
        | none => return (.clip, indent, c)
      | _, _ => return (.clip, indent, c)

/-- Line breaks and the indentation before the next line of a block. With no indentation known, the deepest
blank line tells it. -/
def blockBreaks (start : Mark) (indent : Option Nat) :
    Nat → Nat → Cursor → Except Fault (List Char × Nat × Cursor)
  | 0, deepest, c => .ok ([], deepest, c)
  | n + 1, deepest, c =>
    let blanks := (c.rest.takeWhile (· = ' ')).length
    let c := c.skip (match indent with
      | some k => min blanks (k - c.column)
      | none => blanks)
    let deepest := max deepest c.column
    let indenting := match indent with
      | some k => decide (c.column < k)
      | none => true
    if indenting && c.rest.head? = some '\t' then
      .error (.malformed "found a tab character where an indentation space is expected" c.mark
        (some ("while scanning a block scalar", start)))
    else
      match takeBreak? c.rest with
      | some (b, rest) => (blockBreaks start indent n deepest (c.nextLine rest)).map fun r => (b :: r.1, r.2)
      | none => .ok ([], deepest, c)

/-- The lines of a block. `lead` is the break before them, `breaks` are the blank lines before them. -/
def blockLines (literal : Bool) (chomping : Chomping) (start : Mark) (indent : Nat) :
    Nat → List Char → List Char → Bool → Cursor → Except Fault (List Char × Cursor)
  | 0, _, _, _, c => .ok ([], c)
  | n + 1, lead, breaks, leadBlank, c =>
    match c.rest with
    | x :: _ =>
      if c.column = indent then
        let blank := isBlank x
        let joined :=
          if !literal && lead = ['\n'] && !leadBlank && !blank then (if breaks = [] then [' '] else breaks)
          else lead ++ breaks
        let line := c.rest.takeWhile fun y => !isBreak y
        let c := c.skip line.length
        let (lead, c) := match takeBreak? c.rest with
          | some (b, rest) => ([b], c.nextLine rest)
          | none => ([], c)
        do
          let (breaks, _, c) ← blockBreaks start (some indent) c.rest.length 0 c
          let (text, c) ← blockLines literal chomping start indent n lead breaks blank c
          return (joined ++ line ++ text, c)
      else .ok (tail lead breaks, c)
    | [] => .ok (tail lead breaks, c)
where
  tail (lead breaks : List Char) : List Char :=
    match chomping with
    | .strip => []
    | .clip => lead
    | .keep => lead ++ breaks

/-- A block scalar; `parent` is the column that its lines must pass. -/
def block (literal : Bool) (parent : Nat) (c : Cursor) : Except Fault (List Char × Cursor) := do
  let start := c.mark
  let (chomping, wanted, c) ← header start (c.skip 1)
  let c := (c.skipWhile isBlank).skipComment
  match takeBreak? c.rest with
  | none =>
    if c.rest = [] then return ([], c)
    else throw (.malformed "did not find expected comment or line break" c.mark
      (some ("while scanning a block scalar", start)))
  | some (_, rest) =>
    let c := c.nextLine rest
    let given := wanted.map fun k => parent - 1 + k
    let (breaks, deepest, c) ← blockBreaks start given (c.rest.length + 1) 0 c
    let indent := given.getD (max (max deepest parent) 1)
    blockLines literal chomping start indent (c.rest.length + 1) [] breaks false c

end Scalar
end ServiceSchema.Yaml
