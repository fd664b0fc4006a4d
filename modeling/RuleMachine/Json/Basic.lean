/-!
# JSON values

A JSON text as a tree. Numbers keep their written parts, because the same number may be read at several precisions, and a string that names no sequence of characters, which lone surrogates can do, is kept as such. Writing a tree leaves out all blanks.
-/

namespace RuleMachine

/-- A number as it is written: its whole part, the digits after the point and the exponent. -/
structure JsonNumber where
  negative : Bool
  whole : Nat
  fraction : List Char
  exponent : Option Int
  deriving DecidableEq, Repr

inductive Json where
  | null
  | bool (b : Bool)
  | number (n : JsonNumber)
  /-- Nothing when the escapes in the string do not spell characters. -/
  | string (s : Option (List Char))
  | array (items : List Json)
  | object (members : List (Option (List Char) × Json))

namespace JsonNumber

def ofNat (n : Nat) : JsonNumber := ⟨false, n, [], none⟩

def text (n : JsonNumber) : List Char :=
  let fraction := if n.fraction.isEmpty then [] else '.' :: n.fraction
  let exponent := match n.exponent with
    | none => []
    | some e => 'e' :: (if e < 0 then '-' else '+') :: Nat.toDigits 10 e.natAbs
  (if n.negative then ['-'] else []) ++ Nat.toDigits 10 n.whole ++ fraction ++ exponent

end JsonNumber

namespace Json

def ofNat (n : Nat) : Json := number (.ofNat n)

def ofString (s : String) : Json := string (some s.toList)

def ofMembers (members : List (String × Json)) : Json := object (members.map fun (name, value) => (some name.toList, value))

/-! ### Writing -/

/-- Quotes, backslashes and control characters are escaped. -/
def escape (c : Char) : List Char :=
  if c = '"' then ['\\', '"']
  else if c = '\\' then ['\\', '\\']
  else if c = '\n' then ['\\', 'n']
  else if c = '\r' then ['\\', 'r']
  else if c = '\t' then ['\\', 't']
  else if c = '\x08' then ['\\', 'b']
  else if c = '\x0c' then ['\\', 'f']
  else if c.toNat < 0x20 then ['\\', 'u', '0', '0', Nat.digitChar (c.toNat / 16), Nat.digitChar (c.toNat % 16)]
  else [c]

def quote (s : List Char) : List Char := '"' :: s.flatMap escape ++ ['"']

mutual

def chars : Json → List Char
  | null => ['n', 'u', 'l', 'l']
  | bool b => if b then ['t', 'r', 'u', 'e'] else ['f', 'a', 'l', 's', 'e']
  | number n => n.text
  | string s => quote (s.getD [])
  | array items => '[' :: itemChars items ++ [']']
  | object members => '\x7b' :: memberChars members ++ ['\x7d']

def itemChars : List Json → List Char
  | [] => []
  | [item] => item.chars
  | item :: items => item.chars ++ ',' :: itemChars items

def memberChars : List (Option (List Char) × Json) → List Char
  | [] => []
  | [(name, value)] => quote (name.getD []) ++ ':' :: value.chars
  | (name, value) :: members => quote (name.getD []) ++ ':' :: value.chars ++ ',' :: memberChars members

end

def text (j : Json) : String := String.ofList j.chars

end Json

end RuleMachine
