import Verbatim.Text.Numeral
import Verbatim.Text.Unseen

/-!
Quoted text, as tree dumps and messages show it: the text between double quotes on one line, where
every character that would not be seen as itself is written as an escape.
-/

namespace Verbatim.Quoted

def escapeChar (c : Char) : String :=
  match c.toNat with
  | 0 => "\\0"
  | 9 => "\\t"
  | 10 => "\\n"
  | 13 => "\\r"
  | 34 => "\\\""
  | 92 => "\\\\"
  | code => if isUnseen c then "\\u\x7b" ++ Numeral.hexLower code ++ "\x7d" else c.toString

def quote (text : String) : String :=
  "\"" ++ String.join (text.toList.map escapeChar) ++ "\""

end Verbatim.Quoted
