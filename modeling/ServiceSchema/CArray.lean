/-! # C array literals
Bytes as the initializer of a C array: eight tokens a line, a comma and a blank after every token but the
last one, also at the end of a line. -/
namespace ServiceSchema.CArray

def bytesPerLine : Nat := 8

def hexDigit (n : Nat) : Char := (Nat.digitChar n).toUpper

def token (b : UInt8) : List Char := ['0', 'x', hexDigit (b.toNat / 16), hexDigit (b.toNat % 16)]

/-- The body, when so many tokens stand on the current line already. -/
def body : Nat → List UInt8 → List Char
  | _, [] => []
  | column, b :: bs =>
    let start := if column = 0 then [' ', ' '] else []
    let stop := match bs with
      | [] => ['\n']
      | _ => if column + 1 = bytesPerLine then [',', ' ', '\n'] else [',', ' ']
    start ++ token b ++ stop ++ body ((column + 1) % bytesPerLine) bs

def literal (bytes : List UInt8) : String :=
  String.ofList ('\x7b' :: '\n' :: (body 0 bytes ++ ['\x7d', ';']))

end ServiceSchema.CArray
