import ServiceSchema.Scalar

/-! # Declared types
What a raw field declares: a scalar, or an array `element[length]` of at most so many of them. Fields with a
compiled codec declare the codec's type instead, whose name must be a C identifier. -/
namespace ServiceSchema

inductive TypeError where
  | unknownScalar (name : String)
  | missingBracket
  | invalidLength (digits : String)
  | invalidCodecType (name : String)
deriving DecidableEq

def TypeError.message : TypeError → String
  | .unknownScalar name => s!"'{name}' is not a supported scalar type"
  | .missingBracket => "array length clause is missing the closing ']'"
  | .invalidLength digits => s!"array length '{digits}' is not a positive integer"
  | .invalidCodecType name => s!"'{name}' is not a valid codec type name"

inductive DeclaredType where
  | scalar (type : Scalar)
  | array (element : Scalar) (maxLength : UInt32)
deriving DecidableEq

/-- Cuts a list at the last occurrence of an element. -/
def splitLast (c : Char) : List Char → Option (List Char × List Char)
  | [] => none
  | x :: xs =>
    match splitLast c xs with
    | some (before, after) => some (x :: before, after)
    | none => if x = c then some ([], xs) else none

theorem splitLast_eq_none {c : Char} {xs : List Char} : splitLast c xs = none ↔ c ∉ xs := by
  induction xs with
  | nil => simp [splitLast]
  | cons x xs ih =>
    simp only [splitLast]
    split
    · rename_i h
      have hc : c ∈ xs := by
        by_cases hc : c ∈ xs
        · exact hc
        · rw [ih.2 hc] at h; cases h
      simp [hc]
    · rename_i h
      have := ih.1 h
      by_cases hx : x = c
      · simp [hx]
      · simp [hx, this, Ne.symm hx]

theorem splitLast_eq_some {c : Char} {xs before after : List Char} :
    splitLast c xs = some (before, after) ↔ xs = before ++ c :: after ∧ c ∉ after := by
  induction xs generalizing before with
  | nil => simp [splitLast]
  | cons x xs ih =>
    simp only [splitLast]
    split
    · rename_i b a h
      constructor
      · intro he
        cases he
        obtain ⟨rfl, ha⟩ := ih.1 h
        exact ⟨rfl, ha⟩
      · rintro ⟨he, ha⟩
        cases before with
        | nil =>
          simp only [List.nil_append, List.cons.injEq] at he
          obtain ⟨rfl, rfl⟩ := he
          rw [splitLast_eq_none.2 ha] at h
          cases h
        | cons y ys =>
          simp only [List.cons_append, List.cons.injEq] at he
          rw [ih.2 ⟨he.2, ha⟩] at h
          cases h
          rw [he.1]
    · rename_i h
      have hn := splitLast_eq_none.1 h
      constructor
      · intro he
        split at he
        · rename_i hx
          cases he
          exact ⟨by simp [hx], hn⟩
        · cases he
      · rintro ⟨he, ha⟩
        cases before with
        | nil =>
          simp only [List.nil_append, List.cons.injEq] at he
          simp [he.1, he.2]
        | cons y ys =>
          simp only [List.cons_append, List.cons.injEq] at he
          exact absurd (by simp [he.2]) hn

/-- A list without its last element, which must be the given one. -/
def dropLast? (c : Char) : List Char → Option (List Char)
  | [] => none
  | [x] => if x = c then some [] else none
  | x :: xs => (dropLast? c xs).map (x :: ·)

theorem dropLast?_eq_some {c : Char} {xs ys : List Char} : dropLast? c xs = some ys ↔ xs = ys ++ [c] := by
  induction xs generalizing ys with
  | nil => simp [dropLast?]
  | cons x xs ih =>
    cases xs with
    | nil =>
      by_cases h : x = c
      · cases ys <;> simp [dropLast?, h]
      · cases ys <;> simp [dropLast?, h]
    | cons z zs =>
      cases ys with
      | nil => simp [dropLast?]
      | cons y ys =>
        simp only [dropLast?, Option.map_eq_some_iff, List.cons.injEq, List.cons_append]
        constructor
        · rintro ⟨a, ha, rfl, rfl⟩
          exact ⟨rfl, ih.1 ha⟩
        · rintro ⟨rfl, h⟩
          exact ⟨ys, ih.2 h, rfl, rfl⟩

namespace DeclaredType

/-- Lengths are below this bound. -/
def lengthBound : Nat := 0x100000000

def isDigit (c : Char) : Bool := '0' ≤ c && c ≤ '9'

/-- The number that decimal digits spell. -/
def ofDigits (cs : List Char) : Nat := cs.foldl (fun n c => n * 10 + (c.toNat - '0'.toNat)) 0

/-- A positive length: decimal digits, any number of leading zeros. -/
def length? (cs : List Char) : Option UInt32 :=
  if cs ≠ [] ∧ cs.all isDigit ∧ 0 < ofDigits cs ∧ ofDigits cs < lengthBound then
    some (.ofNat (ofDigits cs))
  else none

def scalar? (cs : List Char) : Except TypeError Scalar :=
  match Scalar.ofName? (String.ofList cs) with
  | some t => .ok t
  | none => .error (.unknownScalar (String.ofList cs))

/-- Resolves a declaration. Whatever contains an opening bracket is an array, its length after the last one;
a fault in the length is reported before one in the element. -/
def resolve (declared : String) : Except TypeError DeclaredType :=
  match splitLast '[' declared.toList with
  | none => (scalar? declared.toList).map .scalar
  | some (element, clause) =>
    match dropLast? ']' clause with
    | none => .error .missingBracket
    | some digits =>
      match length? digits with
      | none => .error (.invalidLength (String.ofList digits))
      | some n => (scalar? element).map fun t => .array t n

/-- The type of the value, or of each element. -/
def base : DeclaredType → Scalar
  | .scalar t => t
  | .array t _ => t

def isArray : DeclaredType → Bool
  | .scalar _ => false
  | .array _ _ => true

def maxLength? : DeclaredType → Option UInt32
  | .scalar _ => none
  | .array _ n => some n

/-- The largest payload in bytes. -/
def wireSize : DeclaredType → Nat
  | .scalar t => t.wireSize
  | .array t n => t.wireSize * n.toNat

def render : DeclaredType → String
  | .scalar t => t.name
  | .array t n => s!"{t.name}[{n.toNat}]"

end DeclaredType

/-- A C identifier, in ASCII. -/
def isCIdentifier (s : String) : Bool :=
  match s.toList with
  | [] => false
  | c :: cs => (c.isAlpha || c = '_') && cs.all fun c => c.isAlphanum || c = '_'

def checkCodecType (name : String) : Except TypeError String :=
  if isCIdentifier name then .ok name else .error (.invalidCodecType name)

end ServiceSchema
