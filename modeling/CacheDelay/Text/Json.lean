import CacheDelay.Decimal.Layout

/-!
# JSON documents

Documents and their text, one member or element a line, indented by two spaces a level. Members
keep their order. Infinities and NaN have no JSON form and are written as null.
-/

namespace CacheDelay.Text

open CacheDelay.Decimal

/-- A JSON document. -/
inductive Json where
  | null
  | bool (b : Bool)
  | natural (n : Nat)
  | float (x : Binary64)
  | string (s : String)
  | array (elements : List Json)
  | object (members : List (String × Json))

/-- Two lowercase hexadecimal digits. -/
def hexByte (n : Nat) : List Char :=
  [Nat.digitChar (n / 16 % 16), Nat.digitChar (n % 16)]

/-- A character inside a quoted JSON text. Quotes, backslashes and control characters are
escaped. -/
def escapeJson (c : Char) : List Char :=
  match c with
  | '"' => ['\\', '"']
  | '\\' => ['\\', '\\']
  | '\x08' => ['\\', 'b']
  | '\t' => ['\\', 't']
  | '\n' => ['\\', 'n']
  | '\x0c' => ['\\', 'f']
  | '\r' => ['\\', 'r']
  | _ => if c.toNat < 0x20 then "\\u00".toList ++ hexByte c.toNat else [c]

/-- A quoted JSON text. -/
def quoteJson (s : String) : String :=
  "\"" ++ String.ofList (s.toList.flatMap escapeJson) ++ "\""

/-- Whether a float has a JSON form. -/
def hasJsonForm (x : Binary64) : Bool := x.isFinite

/-- A new line, indented to `depth` levels. -/
def newLine (depth : Nat) : String := "\n" ++ String.ofList (List.replicate (2 * depth) ' ')

/-- The items of an array or object between its brackets, each on a line of its own. -/
def bracket (opening closing : String) (depth : Nat) (items : List String) : String :=
  match items with
  | [] => opening ++ closing
  | _ =>
    let separator := "," ++ newLine (depth + 1)
    opening ++ newLine (depth + 1) ++ separator.intercalate items ++ newLine depth ++ closing

mutual

/-- The text of a document that stands `depth` levels deep. -/
def Json.render (depth : Nat) : Json → String
  | .null => "null"
  | .bool b => if b then "true" else "false"
  | .natural n => toString n
  | .float x => if hasJsonForm x then json.write x else "null"
  | .string s => quoteJson s
  | .array elements => bracket "[" "]" depth (Json.renderElements (depth + 1) elements)
  | .object members => bracket "\x7b" "\x7d" depth (Json.renderMembers (depth + 1) members)

/-- The texts of the elements of an array. -/
def Json.renderElements (depth : Nat) : List Json → List String
  | [] => []
  | e :: rest => e.render depth :: Json.renderElements depth rest

/-- The texts of the members of an object. -/
def Json.renderMembers (depth : Nat) : List (String × Json) → List String
  | [] => []
  | (name, value) :: rest =>
    (quoteJson name ++ ": " ++ value.render depth) :: Json.renderMembers depth rest

end

end CacheDelay.Text
