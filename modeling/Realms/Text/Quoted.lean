import Realms.Text.Unprintable

/-!
Quoted text, for diagnostics: double quotes around the characters, with a backslash escape for each
one that could not be read back from its own form.
-/

namespace Realms.Text

/-- The form of one character inside quotes. Apostrophes stand for themselves. -/
def escape (c : Char) : List Char :=
  match c with
  | '\x00' => ['\\', '0']
  | '\t' => ['\\', 't']
  | '\r' => ['\\', 'r']
  | '\n' => ['\\', 'n']
  | '\\' => ['\\', '\\']
  | '"' => ['\\', '"']
  | c => if isPrintable c then [c] else '\\' :: 'u' :: '{' :: Nat.toDigits 16 c.toNat ++ ['}']

/-- The text in quotes. -/
def quoted (s : String) : String := .ofList ('"' :: s.toList.flatMap escape ++ ['"'])

end Realms.Text
