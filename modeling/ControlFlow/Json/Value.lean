import ControlFlow.Number.Layout
import ControlFlow.Text.Quoted
/-!
# JSON values and their texts

JSON values with objects whose fields keep their order, written on one line (`compact`) or with one
item a line (`pretty`).
-/

namespace ControlFlow

/-- A JSON value. The fields of an object keep the order in which they were given. -/
inductive Json where
  | null
  | bool (b : Bool)
  | integer (n : Int)
  | float (x : Binary64)
  | str (s : String)
  | arr (items : List Json)
  | obj (fields : List (String × Json))
deriving Inhabited

namespace Json

/-- One character inside a JSON string: only quotes, backslashes and controls are escaped. -/
def escapedChar (c : Char) : String :=
  match c with
  | '"' => "\\\""
  | '\\' => "\\\\"
  | '\x08' => "\\b"
  | '\t' => "\\t"
  | '\n' => "\\n"
  | '\x0c' => "\\f"
  | '\r' => "\\r"
  | c =>
    if c.toNat < 0x20 then
      "\\u00" ++ (if c.toNat < 0x10 then "0" else "") ++ Text.hexadecimal c.toNat
    else c.toString

/-- A text as a JSON string. -/
def quotedString (s : String) : String :=
  "\"" ++ String.join (s.toList.map escapedChar) ++ "\""

mutual

/-- A value on one line, without blanks. -/
def compact : Json → String
  | null => "null"
  | bool b => if b then "true" else "false"
  | integer n => toString n
  | float x => Number.json.write x
  | str s => quotedString s
  | arr items => "[" ++ compactItems items ++ "]"
  | obj fields => "\x7b" ++ compactFields fields ++ "\x7d"

/-- The items of an array on one line. -/
def compactItems : List Json → String
  | [] => ""
  | v :: vs => compact v ++ (if vs.isEmpty then "" else ",") ++ compactItems vs

/-- The fields of an object on one line. -/
def compactFields : List (String × Json) → String
  | [] => ""
  | (k, v) :: fs =>
    quotedString k ++ ":" ++ compact v ++ (if fs.isEmpty then "" else ",") ++ compactFields fs

end

/-- A line end and the blanks before an item at the given level, two for each level. -/
def newline (level : Nat) : String := "\n" ++ String.ofList (List.replicate (2 * level) ' ')

mutual

/-- A value with one item a line, its own items at level `level + 1`. -/
def prettyAt (level : Nat) : Json → String
  | null => "null"
  | bool b => if b then "true" else "false"
  | integer n => toString n
  | float x => Number.json.write x
  | str s => quotedString s
  | arr items =>
    if items.isEmpty then "[]"
    else "[" ++ prettyItems (level + 1) items ++ newline level ++ "]"
  | obj fields =>
    if fields.isEmpty then "\x7b\x7d"
    else "\x7b" ++ prettyFields (level + 1) fields ++ newline level ++ "\x7d"

/-- The items of an array, each on a line of its own. -/
def prettyItems (level : Nat) : List Json → String
  | [] => ""
  | v :: vs =>
    newline level ++ prettyAt level v ++ (if vs.isEmpty then "" else ",") ++ prettyItems level vs

/-- The fields of an object, each on a line of its own. -/
def prettyFields (level : Nat) : List (String × Json) → String
  | [] => ""
  | (k, v) :: fs =>
    newline level ++ quotedString k ++ ": " ++ prettyAt level v ++
      (if fs.isEmpty then "" else ",") ++ prettyFields level fs

end

/-- A value with one item a line. -/
def pretty (v : Json) : String := prettyAt 0 v

end Json

end ControlFlow
