import QueryPlan.Binary64.Text
import QueryPlan.Json.Basic
import QueryPlan.Text.Quoted

/-!
# Writing JSON

On one line without blanks, or spread over lines with two blanks for each level.
-/

namespace QueryPlan.Json

/-- Quotes, backslashes and controls are escaped; all other characters stand for themselves. -/
def escapeChar (c : Char) : String :=
  match c with
  | '"' => "\\\""
  | '\\' => "\\\\"
  | '\n' => "\\n"
  | '\r' => "\\r"
  | '\t' => "\\t"
  | _ =>
    if c.toNat = 8 then "\\b"
    else if c.toNat = 12 then "\\f"
    else if c.toNat < 16 then "\\u000" ++ Text.hex c.toNat
    else if c.toNat < 32 then "\\u00" ++ Text.hex c.toNat
    else c.toString

def stringText (s : String) : String :=
  "\"" ++ String.join (s.toList.map escapeChar) ++ "\""

/-- What is not a number, or not finite, has no form in JSON, and neither has what is unfit. -/
def realText (x : Binary64) : String := if x.isFinite then x.text .data else "null"

mutual

/-- The text on one line. -/
def compress : Json → String
  | null | unfit => "null"
  | bool b => toString b
  | int i => toString i
  | real x => realText x
  | str s => stringText s
  | arr items => "[" ++ ",".intercalate (compressAll items) ++ "]"
  | obj members => "\x7b" ++ ",".intercalate (compressMembers members) ++ "\x7d"

def compressAll : List Json → List String
  | [] => []
  | j :: js => j.compress :: compressAll js

def compressMembers : List (String × Json) → List String
  | [] => []
  | (key, j) :: rest => (stringText key ++ ":" ++ j.compress) :: compressMembers rest

end

/-- A line break and the blanks of a level. -/
def newline (level : Nat) : String := "\n" ++ String.ofList (List.replicate (2 * level) ' ')

/-- Parts on lines of their own between two brackets; nothing between them if there are no parts. -/
def block (opening closing : String) (level : Nat) (parts : List String) : String :=
  if parts.isEmpty then opening ++ closing
  else
    opening ++ newline (level + 1) ++ ("," ++ newline (level + 1)).intercalate parts ++
      newline level ++ closing

mutual

/-- The text over several lines, from a level of nesting on. -/
def prettyAt (level : Nat) : Json → String
  | null | unfit => "null"
  | bool b => toString b
  | int i => toString i
  | real x => realText x
  | str s => stringText s
  | arr items => block "[" "]" level (prettyAll (level + 1) items)
  | obj members => block "\x7b" "\x7d" level (prettyMembers (level + 1) members)

def prettyAll (level : Nat) : List Json → List String
  | [] => []
  | j :: js => j.prettyAt level :: prettyAll level js

def prettyMembers (level : Nat) : List (String × Json) → List String
  | [] => []
  | (key, j) :: rest => (stringText key ++ ": " ++ j.prettyAt level) :: prettyMembers level rest

end

/-- The text over several lines. -/
def pretty (j : Json) : String := j.prettyAt 0

end QueryPlan.Json
