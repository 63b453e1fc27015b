import SyncPoint.Text.Hexadecimal
import SyncPoint.Text.Shapeless

/-!
# Quoted text

A text is shown between double quotes.  The quote and the backslash are written behind a backslash,
four controls by a letter or digit, and what has no shape of its own by its code point.
-/

namespace SyncPoint.Text

/-- One character as it is written between quotes. -/
def quotedChar (c : Char) : String :=
  match c with
  | '"' => "\\\""
  | '\\' => "\\\\"
  | '\n' => "\\n"
  | '\r' => "\\r"
  | '\t' => "\\t"
  | '\x00' => "\\0"
  | c => if isShapeless c then "\\u\x7b" ++ hexDigits c.toNat ++ "\x7d" else c.toString

/-- A text between quotes. -/
def quoted (text : String) : String :=
  "\"" ++ String.join (text.toList.map quotedChar) ++ "\""

end SyncPoint.Text
