import ServiceSchema.Text.Unprintable

/-! # Quoted text in messages
A text in double quotes, such that every character can be told apart: what has no picture of its own is shown
by its code point. -/
namespace ServiceSchema.Text

/-- A code point in lower-case hexadecimal within braces. -/
def codePoint (c : Char) : List Char := '\\' :: 'u' :: '\x7b' :: (Nat.toDigits 16 c.toNat ++ ['\x7d'])

def showChar (c : Char) : List Char :=
  if c = '\x00' then ['\\', '0']
  else if c = '\t' then ['\\', 't']
  else if c = '\n' then ['\\', 'n']
  else if c = '\r' then ['\\', 'r']
  else if c = '"' then ['\\', '"']
  else if c = '\\' then ['\\', '\\']
  else if isUnprintable c then codePoint c
  else [c]

def quoted (s : String) : String := String.ofList ('"' :: (s.toList.flatMap showChar ++ ['"']))

end ServiceSchema.Text
