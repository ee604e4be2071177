/-! # Text for terminals
A terminal obeys some control characters, and what follows an escape character. A text that is safe to show
has them spelled out: those of the first 128 code points by two hexadecimal digits, the others within braces.
-/
namespace ServiceSchema.Text

/-- Bell, backspace, form feed, escape and delete, and the controls beyond the first 128 code points. -/
def isTerminalControl (c : Char) : Bool :=
  let n := c.toNat
  n == 0x07 || n == 0x08 || n == 0x0C || n == 0x1B || (0x7F ≤ n && n ≤ 0x9F)

def spellControl (c : Char) : List Char :=
  if !isTerminalControl c then [c]
  else if c.toNat < 0x80 then ['\\', 'x', Nat.digitChar (c.toNat / 16), Nat.digitChar (c.toNat % 16)]
  else '\\' :: 'u' :: '\x7b' :: (Nat.toDigits 16 c.toNat ++ ['\x7d'])

def terminalSafe (s : String) : String := String.ofList (s.toList.flatMap spellControl)

/-- Nothing else is changed. -/
theorem terminalSafe_eq_self {s : String} (h : ∀ c ∈ s.toList, isTerminalControl c = false) :
    terminalSafe s = s := by
  have spell : ∀ cs : List Char, (∀ c ∈ cs, isTerminalControl c = false) → cs.flatMap spellControl = cs := by
    intro cs
    induction cs with
    | nil => simp
    | cons c cs ih => intro h; simp_all [spellControl]
  simp [terminalSafe, spell _ h]

end ServiceSchema.Text
