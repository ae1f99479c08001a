import GrammarModule.Text.Visible

/-!
# GrammarModule.Text.Quoted

Texts shown inside a message: between double quotes, on one line, every character either itself
or an escape, so that the shown text has no invisible part.
-/

namespace GrammarModule
namespace Text

/-- Lower-case hexadecimal digits without leading zeros. -/
def hexadecimal (n : Nat) : List Char := Nat.toDigits 16 n

/-- Quotes, backslashes and the usual controls have escapes of two characters; any other
character without a glyph of its own is named by its code point. -/
def quotedChar (c : Char) : List Char :=
  match c with
  | '\x00' => ['\\', '0']
  | '\t' => ['\\', 't']
  | '\r' => ['\\', 'r']
  | '\n' => ['\\', 'n']
  | '"' => ['\\', '"']
  | '\\' => ['\\', '\\']
  | c => if isVisible c then [c] else '\\' :: 'u' :: '\x7b' :: hexadecimal c.toNat ++ ['\x7d']

def quoted (s : String) : String :=
  String.ofList ('"' :: s.toList.flatMap quotedChar ++ ['"'])

end Text
end GrammarModule
