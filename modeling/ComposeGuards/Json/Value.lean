/-! # Written JSON

Values that the program writes, and their text with two spaces of indentation. Keys keep their
order. In strings the quote, the backslash and the control characters below the space are escaped,
and nothing else is.
-/
namespace ComposeGuards.Json

inductive Value
  | boolean (b : Bool)
  | natural (n : Nat)
  | text (s : String)
  | array (items : List Value)
  | object (members : List (String × Value))

namespace Value

def escapedChar (c : Char) : List Char :=
  if c = '"' then ['\\', '"']
  else if c = '\\' then ['\\', '\\']
  else if c = '\x08' then ['\\', 'b']
  else if c = '\t' then ['\\', 't']
  else if c = '\n' then ['\\', 'n']
  else if c = '\x0c' then ['\\', 'f']
  else if c = '\r' then ['\\', 'r']
  else if c < ' ' then
    let digits := Nat.toDigits 16 c.toNat
    ['\\', 'u', '0', '0'] ++ List.replicate (2 - digits.length) '0' ++ digits
  else [c]

def quote (s : String) : String :=
  String.ofList ('"' :: s.toList.flatMap escapedChar ++ ['"'])

def newline (depth : Nat) : String :=
  "\n" ++ String.ofList (List.replicate (2 * depth) ' ')

/-- Items between brackets, one a line; without items only the brackets. -/
def block (depth : Nat) (opening closing : String) (items : List String) : String :=
  if items.isEmpty then opening ++ closing
  else
    opening ++ newline (depth + 1) ++ ("," ++ newline (depth + 1)).intercalate items ++
      newline depth ++ closing

mutual

/-- Text of a value whose first line is already indented. -/
def pretty (depth : Nat) : Value → String
  | boolean b => toString b
  | natural n => toString n
  | text s => quote s
  | array items => block depth "[" "]" (prettyItems depth items)
  | object members => block depth "\x7b" "\x7d" (prettyMembers depth members)

def prettyItems (depth : Nat) : List Value → List String
  | [] => []
  | v :: vs => pretty (depth + 1) v :: prettyItems depth vs

def prettyMembers (depth : Nat) : List (String × Value) → List String
  | [] => []
  | (key, v) :: ms => (quote key ++ ": " ++ pretty (depth + 1) v) :: prettyMembers depth ms

end

end Value
end ComposeGuards.Json
