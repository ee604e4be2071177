/-! # Positions in a text
Lines count from one; a column is the number of UTF-8 bytes since the last line feed. -/
namespace ServiceSchema.Text

structure Position where
  line : Nat
  column : Nat
deriving DecidableEq

namespace Position

def start : Position := ⟨1, 0⟩

def next (p : Position) (c : Char) : Position :=
  if c = '\n' then ⟨p.line + 1, 0⟩ else ⟨p.line, p.column + c.utf8Size⟩

/-- The position after a piece of text. -/
def after (p : Position) (cs : List Char) : Position := cs.foldl next p

/-- The position after the first `n` bytes of a text, or after all of it if it is shorter. -/
def afterBytes : Position → Nat → List Char → Position
  | p, 0, _ => p
  | p, _ + 1, [] => p
  | p, n + 1, c :: cs =>
    if c.utf8Size ≤ n + 1 then afterBytes (p.next c) (n + 1 - c.utf8Size) cs
    else ⟨p.line, p.column + n + 1⟩

end Position

/-- How many bytes a text takes in UTF-8. -/
def byteLength : List Char → Nat
  | [] => 0
  | c :: cs => c.utf8Size + byteLength cs

theorem byteLength_append (cs ds : List Char) : byteLength (cs ++ ds) = byteLength cs + byteLength ds := by
  induction cs with
  | nil => simp [byteLength]
  | cons c cs ih => simp [byteLength, ih, Nat.add_assoc]

end ServiceSchema.Text
