import DescriptorCodec.Text.Invisible

/-!
# Quoted text

Text between double quotes, as it appears in diagnostics. A backslash or a double quote is
preceded by a backslash, four controls have a letter, and every other character without a glyph
of its own is written as its code point.
-/

namespace DescriptorCodec

namespace Text

/-- A character as it is written between the quotes. -/
def escape (c : Char) : List Char :=
  match c with
  | '\x00' => ['\\', '0']
  | '\t' => ['\\', 't']
  | '\n' => ['\\', 'n']
  | '\r' => ['\\', 'r']
  | '"' => ['\\', '"']
  | '\\' => ['\\', '\\']
  | c =>
    if isInvisible c then ['\\', 'u', '\x7b'] ++ Nat.toDigits 16 c.toNat ++ ['\x7d'] else [c]

/-- The text between double quotes. -/
def quote (text : String) : String :=
  String.ofList ('"' :: text.toList.flatMap escape ++ ['"'])

end Text

end DescriptorCodec
