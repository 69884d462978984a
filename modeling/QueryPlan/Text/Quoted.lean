import QueryPlan.Text.Unprintable

/-!
# Quoted text

A quoted text stands between double quotes. Inside it the double quote, the backslash, tab, return,
newline and the zero character are written with a backslash, and every other unprintable character
is written by its number in hexadecimal, between braces. All else stands for itself.
-/

namespace QueryPlan.Text

/-- The digits of a number in base sixteen, lower case, without padding. -/
def hex (n : Nat) : String := String.ofList (Nat.toDigits 16 n)

def quoteChar (c : Char) : String :=
  match c with
  | '"' => "\\\""
  | '\\' => "\\\\"
  | '\t' => "\\t"
  | '\r' => "\\r"
  | '\n' => "\\n"
  | _ =>
    if c.toNat = 0 then "\\0"
    else if isUnprintable c then "\\u\x7b" ++ hex c.toNat ++ "\x7d"
    else c.toString

/-- The text in double quotes. -/
def quote (s : String) : String :=
  "\"" ++ String.join (s.toList.map quoteChar) ++ "\""

/-- A list of texts, each quoted. -/
def quoteList (items : List String) : String :=
  "[" ++ ", ".intercalate (items.map quote) ++ "]"

/-- Capital letters of ASCII made small; all other characters stay. -/
def lower (s : String) : String := s.map Char.toLower

/-- Small letters of ASCII made capital; all other characters stay. -/
def upper (s : String) : String := s.map Char.toUpper

end QueryPlan.Text
