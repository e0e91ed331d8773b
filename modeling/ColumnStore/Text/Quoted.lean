import ColumnStore.Text.Glyph
/-! A text in double quotes as diagnostics show it: whatever could not be told apart on a screen is escaped. -/
namespace ColumnStore.Text

def codePointEscape (c : Char) : List Char :=
  ['\\','u','\x7b'] ++ Nat.toDigits 16 c.toNat ++ ['\x7d']

def quotedCharacter (c : Char) : List Char :=
  match c with
  | '\x00' => ['\\','0']
  | '\t' => ['\\','t']
  | '\r' => ['\\','r']
  | '\n' => ['\\','n']
  | '"' => ['\\','"']
  | '\\' => ['\\','\\']
  | c => if isGlyphless c then codePointEscape c else [c]

def quoted (s : String) : String := "\"" ++ String.ofList (s.toList.flatMap quotedCharacter) ++ "\""

end ColumnStore.Text
