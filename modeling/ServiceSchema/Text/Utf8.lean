/-! # UTF-8
Characters as bytes, and the longest well-formed prefix of a byte list. Overlong forms, surrogates and code
points beyond the last one are not well formed. -/
namespace ServiceSchema.Utf8

def encodeChar (c : Char) : List UInt8 :=
  let n := c.toNat
  if n < 0x80 then [UInt8.ofNat n]
  else if n < 0x800 then [UInt8.ofNat (0xC0 + n / 0x40), UInt8.ofNat (0x80 + n % 0x40)]
  else if n < 0x10000 then
    [UInt8.ofNat (0xE0 + n / 0x1000), UInt8.ofNat (0x80 + n / 0x40 % 0x40), UInt8.ofNat (0x80 + n % 0x40)]
  else
    [UInt8.ofNat (0xF0 + n / 0x40000), UInt8.ofNat (0x80 + n / 0x1000 % 0x40),
      UInt8.ofNat (0x80 + n / 0x40 % 0x40), UInt8.ofNat (0x80 + n % 0x40)]

def encode (cs : List Char) : List UInt8 := cs.flatMap encodeChar

@[simp] theorem encode_nil : encode [] = [] := rfl

@[simp] theorem encode_cons (c : Char) (cs : List Char) : encode (c :: cs) = encodeChar c ++ encode cs := rfl

/-- The six bits of a continuation byte. -/
def tail? (b : UInt8) : Option Nat :=
  if 0x80 ≤ b.toNat ∧ b.toNat < 0xC0 then some (b.toNat - 0x80) else none

/-- A code point, unless a shorter form exists or it is no character. -/
def char? (least n : Nat) : Option Char :=
  if h : n.isValidChar ∧ least ≤ n then some (Char.ofNatAux n h.1) else none

def two? (a b : UInt8) : Option Char :=
  if a.toNat < 0xE0 then (tail? b).bind fun b => char? 0x80 ((a.toNat - 0xC0) * 0x40 + b) else none

def three? (a b c : UInt8) : Option Char :=
  if 0xE0 ≤ a.toNat ∧ a.toNat < 0xF0 then
    (tail? b).bind fun b => (tail? c).bind fun c => char? 0x800 (((a.toNat - 0xE0) * 0x40 + b) * 0x40 + c)
  else none

def four? (a b c d : UInt8) : Option Char :=
  if 0xF0 ≤ a.toNat ∧ a.toNat < 0xF8 then
    (tail? b).bind fun b => (tail? c).bind fun c => (tail? d).bind fun d =>
      char? 0x10000 ((((a.toNat - 0xF0) * 0x40 + b) * 0x40 + c) * 0x40 + d)
  else none

/-- The longest well-formed prefix and what follows it. -/
def split : List UInt8 → List Char × List UInt8
  | [] => ([], [])
  | a :: r =>
    if a.toNat < 0x80 then (Char.ofNat a.toNat :: (split r).1, (split r).2)
    else if a.toNat < 0xC0 then ([], a :: r)
    else match r with
      | [] => ([], [a])
      | b :: r =>
        match two? a b with
        | some x => (x :: (split r).1, (split r).2)
        | none =>
          match r with
          | [] => ([], [a, b])
          | c :: r =>
            match three? a b c with
            | some x => (x :: (split r).1, (split r).2)
            | none =>
              match r with
              | [] => ([], [a, b, c])
              | d :: r =>
                match four? a b c d with
                | some x => (x :: (split r).1, (split r).2)
                | none => ([], a :: b :: c :: d :: r)

def decode? (bytes : List UInt8) : Option (List Char) :=
  match split bytes with
  | (cs, []) => some cs
  | _ => none

end ServiceSchema.Utf8
