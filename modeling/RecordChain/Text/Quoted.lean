import RecordChain.Text.Invisible

/-!
# Quoted text

Diagnostics quote a name so that it can be told apart from the words around it. A quote and a
backslash are written with a backslash before them, the common controls have letters, and a
character without a visible mark of its own is written by its number, `\u{200b}`. All else stands
for itself, the apostrophe too.
-/

namespace RecordChain.Quoted

/-- The number of a character in lower-case hexadecimal, without leading zeros. -/
def number (c : Char) : List Char := Nat.toDigits 16 c.toNat

/-- How one character is written inside the quotes. -/
def escape (c : Char) : List Char :=
  match c with
  | '\x00' => ['\\', '0']
  | '\t' => ['\\', 't']
  | '\r' => ['\\', 'r']
  | '\n' => ['\\', 'n']
  | '"' => ['\\', '"']
  | '\\' => ['\\', '\\']
  | c =>
    if ' ' ≤ c ∧ c ≤ '~' then [c]
    else if Invisible.contains c then ['\\', 'u', '\x7b'] ++ number c ++ ['\x7d']
    else [c]

/-- The text between quotes. -/
def quote (text : String) : String :=
  String.ofList ('"' :: text.toList.flatMap escape ++ ['"'])

end RecordChain.Quoted
