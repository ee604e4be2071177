import ServiceSchema.Json.Token
import ServiceSchema.Json.Value

/-! # Reading JSON
A machine that takes one token after another. Its stack holds the containers that are still open, so the
limit on nesting is a limit on the stack; its phase says what may come next, and thereby which fault
a wrong token is. -/
namespace ServiceSchema.Json

/-- An open container: its content so far and, within an object, the key whose value comes next. -/
inductive Frame where
  | array (reversed : List Value)
  | object (members : Members) (key : String)
deriving Inhabited

inductive Phase where
  /-- A value must follow, and is all that may. -/
  | value
  /-- Just after an opening bracket. -/
  | firstItem
  /-- After a comma in an array. -/
  | nextItem
  /-- After an item. -/
  | itemEnd
  /-- Just after an opening brace. -/
  | firstKey
  /-- After a comma in an object. -/
  | nextKey
  /-- After a key. -/
  | colon
  /-- After a member. -/
  | memberEnd
  | done (v : Value)

structure Reader where
  phase : Phase
  stack : List Frame

namespace Reader

/-- At most so many containers may be open. -/
def maxDepth : Nat := 127

def start : Reader := ⟨.value, []⟩

/-- Hands a finished value to the innermost open container. -/
def supply (v : Value) : List Frame → Reader
  | [] => ⟨.done v, []⟩
  | .array items :: stack => ⟨.itemEnd, .array (v :: items) :: stack⟩
  | .object members key :: stack => ⟨.memberEnd, .object (members.insert key v) key :: stack⟩

def openArray (t : Token) (stack : List Frame) : Except Fault Reader :=
  if stack.length < maxDepth then .ok ⟨.firstItem, .array [] :: stack⟩
  else .error (.unexpected .tooDeep t.start)

def openObject (t : Token) (stack : List Frame) : Except Fault Reader :=
  if stack.length < maxDepth then .ok ⟨.firstKey, .object [] "" :: stack⟩
  else .error (.unexpected .tooDeep t.start)

/-- A token where a value begins. -/
def beginValue (t : Token) (stack : List Frame) : Except Fault Reader :=
  match t.lexeme with
  | .beginArray => openArray t stack
  | .beginObject => openObject t stack
  | .null => .ok (supply .null stack)
  | .bool b => .ok (supply (.bool b) stack)
  | .number n => .ok (supply (.number n) stack)
  | .string s => .ok (supply (.string s) stack)
  | .broken f | .brokenString f => .error f
  | _ => .error (.unexpected .expectedValue t.start)

def close : List Frame → Except Fault Reader
  | .array items :: stack => .ok (supply (.array items.reverse) stack)
  | .object members _ :: stack => .ok (supply (.object members) stack)
  | [] => .error (.eof .expectedValue)

/-- A token where a key begins. -/
def beginKey (t : Token) : List Frame → Except Fault Reader
  | .object members _ :: stack =>
    match t.lexeme with
    | .string key => .ok ⟨.colon, .object members key :: stack⟩
    | .brokenString f => .error f
    | _ => .error (.unexpected .keyNotString t.start)
  | _ => .error (.unexpected .keyNotString t.start)

def step (r : Reader) (t : Token) : Except Fault Reader :=
  match r.phase, t.lexeme with
  | .value, _ => beginValue t r.stack
  | .firstItem, .endArray => close r.stack
  | .firstItem, _ => beginValue t r.stack
  | .nextItem, .endArray => .error (.unexpected .trailingComma t.start)
  | .nextItem, _ => beginValue t r.stack
  | .itemEnd, .endArray => close r.stack
  | .itemEnd, .comma => .ok ⟨.nextItem, r.stack⟩
  | .itemEnd, _ => .error (.unexpected .expectedCommaOrBracket t.start)
  | .firstKey, .endObject => close r.stack
  | .firstKey, _ => beginKey t r.stack
  | .nextKey, .endObject => .error (.unexpected .trailingComma t.start)
  | .nextKey, _ => beginKey t r.stack
  | .colon, .colon => .ok ⟨.value, r.stack⟩
  | .colon, _ => .error (.unexpected .expectedColon t.start)
  | .memberEnd, .endObject => close r.stack
  | .memberEnd, .comma => .ok ⟨.nextKey, r.stack⟩
  | .memberEnd, _ => .error (.unexpected .expectedCommaOrBrace t.start)
  | .done _, _ => .error (.unexpected .trailingCharacters t.start)

/-- The end of the text. -/
def finish (r : Reader) : Except Fault Value :=
  match r.phase with
  | .done v => .ok v
  | .value | .nextItem | .nextKey => .error (.eof .eofInValue)
  | .firstItem | .itemEnd => .error (.eof .eofInList)
  | .firstKey | .colon | .memberEnd => .error (.eof .eofInObject)

def run (r : Reader) : List Token → Except Fault Value
  | [] => r.finish
  | t :: ts => match r.step t with
    | .ok r => r.run ts
    | .error f => .error f

end Reader

/-- The document a text spells. -/
def readChars (cs : List Char) : Except SyntaxError Value :=
  (Reader.start.run (Token.scan cs)).mapError (Fault.located cs)

def read (text : String) : Except SyntaxError Value := readChars text.toList

end ServiceSchema.Json
