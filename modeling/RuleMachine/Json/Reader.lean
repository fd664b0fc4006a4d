import RuleMachine.Json.Basic

/-!
# Reading JSON

Reads the text of one JSON value, blanks around it included and nothing else. A number has no leading zeros and at least one digit in each part, and a string holds no bare control characters. Each step of the reader consumes a character or hands over to one that does, so twice the length of the text is enough steps for any text.
-/

namespace RuleMachine.Json

def skipSpace (s : List Char) : List Char := s.dropWhile fun c => c = ' ' || c = '\n' || c = '\t' || c = '\r'

/-! ### Numbers -/

/-- The digits that the text starts with, at least one. -/
def readDigits (s : List Char) : Option (List Char × List Char) :=
  let digits := s.takeWhile Char.isDigit
  if digits.isEmpty then none else some (digits, s.drop digits.length)

def readSign : List Char → Bool × List Char
  | '-' :: r => (true, r)
  | s => (false, s)

/-- A whole part, which starts with zero only if it is zero. -/
def readWhole (s : List Char) : Option (Nat × List Char) := do
  let (digits, r) ← readDigits s
  if digits.head? = some '0' ∧ digits.length ≠ 1 then none else some (Nat.ofDigitChars 10 digits 0, r)

def readFraction : List Char → Option (List Char × List Char)
  | '.' :: r => readDigits r
  | s => some ([], s)

def readPower (s : List Char) : Option (Int × List Char) :=
  match s with
  | '+' :: r => (readDigits r).map fun (digits, t) => ((Nat.ofDigitChars 10 digits 0 : Int), t)
  | '-' :: r => (readDigits r).map fun (digits, t) => (-(Nat.ofDigitChars 10 digits 0 : Int), t)
  | r => (readDigits r).map fun (digits, t) => ((Nat.ofDigitChars 10 digits 0 : Int), t)

def readExponent : List Char → Option (Option Int × List Char)
  | 'e' :: r => (readPower r).map fun (e, t) => (some e, t)
  | 'E' :: r => (readPower r).map fun (e, t) => (some e, t)
  | s => some (none, s)

def readNumber (s : List Char) : Option (JsonNumber × List Char) := do
  let (negative, s) := readSign s
  let (whole, s) ← readWhole s
  let (fraction, s) ← readFraction s
  let (exponent, s) ← readExponent s
  return (⟨negative, whole, fraction, exponent⟩, s)

/-! ### Strings -/

/-- A piece of a string: a character as it stands or a code unit that was escaped. -/
inductive StringPart where
  | char (c : Char)
  | unit (n : Nat)

def hexValue? (c : Char) : Option Nat :=
  if c.isDigit then some (c.toNat - '0'.toNat)
  else if 'a' ≤ c ∧ c ≤ 'f' then some (c.toNat - 'a'.toNat + 10)
  else if 'A' ≤ c ∧ c ≤ 'F' then some (c.toNat - 'A'.toNat + 10)
  else none

def hexUnit? (digits : List Char) : Option Nat := do
  let values ← digits.mapM hexValue?
  return values.foldl (fun n d => n * 16 + d) 0

/-- What a backslash and a letter stand for. -/
def simpleEscape? : Char → Option Char
  | '"' => some '"'
  | '\\' => some '\\'
  | '/' => some '/'
  | 'b' => some '\x08'
  | 'f' => some '\x0c'
  | 'n' => some '\n'
  | 'r' => some '\r'
  | 't' => some '\t'
  | _ => none

/-- The pieces of a string up to the closing quote. -/
def readParts : List Char → Option (List StringPart × List Char)
  | [] => none
  | '"' :: r => some ([], r)
  | '\\' :: 'u' :: a :: b :: c :: d :: r => do
    let n ← hexUnit? [a, b, c, d]
    let (parts, t) ← readParts r
    return (.unit n :: parts, t)
  | '\\' :: e :: r => do
    let c ← simpleEscape? e
    let (parts, t) ← readParts r
    return (.char c :: parts, t)
  | c :: r =>
    if c = '\\' ∨ c.toNat < 0x20 then none
    else do
      let (parts, t) ← readParts r
      return (.char c :: parts, t)

def isHighSurrogate (n : Nat) : Bool := 0xd800 ≤ n && n < 0xdc00

def isLowSurrogate (n : Nat) : Bool := 0xdc00 ≤ n && n < 0xe000

/-- The characters that the pieces spell; surrogates have to come in pairs. -/
def spell? : List StringPart → Option (List Char)
  | [] => some []
  | .char c :: parts => (spell? parts).map (c :: ·)
  | [.unit n] => if isHighSurrogate n || isLowSurrogate n then none else some [Char.ofNat n]
  | .unit n :: .char c :: parts =>
    if isHighSurrogate n || isLowSurrogate n then none else (spell? parts).map fun cs => Char.ofNat n :: c :: cs
  | .unit n :: .unit m :: parts =>
    if isHighSurrogate n && isLowSurrogate m then
      (spell? parts).map (Char.ofNat (0x10000 + (n - 0xd800) * 0x400 + (m - 0xdc00)) :: ·)
    else if isHighSurrogate n || isLowSurrogate n then none
    else (spell? (.unit m :: parts)).map (Char.ofNat n :: ·)

def readString (s : List Char) : Option (Option (List Char) × List Char) := do
  let (parts, r) ← readParts s
  return (spell? parts, r)

/-! ### Trees -/

mutual

/-- One value, in at most `fuel` steps. -/
def readValue : Nat → List Char → Option (Json × List Char)
  | 0, _ => none
  | fuel + 1, s =>
    match skipSpace s with
    | 'n' :: 'u' :: 'l' :: 'l' :: r => some (null, r)
    | 't' :: 'r' :: 'u' :: 'e' :: r => some (bool true, r)
    | 'f' :: 'a' :: 'l' :: 's' :: 'e' :: r => some (bool false, r)
    | '"' :: r => (readString r).map fun (s, t) => (string s, t)
    | '[' :: r =>
      match skipSpace r with
      | ']' :: t => some (array [], t)
      | t => (readItems fuel t).map fun (items, u) => (array items, u)
    | '\x7b' :: r =>
      match skipSpace r with
      | '\x7d' :: t => some (object [], t)
      | t => (readMembers fuel t).map fun (members, u) => (object members, u)
    | t => (readNumber t).map fun (n, u) => (number n, u)

def readItems : Nat → List Char → Option (List Json × List Char)
  | 0, _ => none
  | fuel + 1, s => do
    let (item, r) ← readValue fuel s
    match skipSpace r with
    | ']' :: t => some ([item], t)
    | ',' :: t =>
      let (items, u) ← readItems fuel t
      some (item :: items, u)
    | _ => none

def readMembers : Nat → List Char → Option (List (Option (List Char) × Json) × List Char)
  | 0, _ => none
  | fuel + 1, s =>
    match skipSpace s with
    | '"' :: r => do
      let (name, r) ← readString r
      match skipSpace r with
      | ':' :: t =>
        let (value, u) ← readValue fuel t
        match skipSpace u with
        | '\x7d' :: v => some ([(name, value)], v)
        | ',' :: v =>
          let (members, w) ← readMembers fuel v
          some ((name, value) :: members, w)
        | _ => none
      | _ => none
    | _ => none

end

def parse? (s : String) : Option Json := do
  let chars := s.toList
  let (j, rest) ← readValue (2 * chars.length + 2) chars
  if (skipSpace rest).isEmpty then some j else none

end RuleMachine.Json
