import MemcachedClient.Text.Decimal

/-!
# Settings documents

A document in the JSON grammar, read strictly: one value, with blanks around it and nothing else.
A document that denotes settings is either an object, whose members name the settings, or an array,
which gives them in the order of their declaration (`Document.settings?`).

Two distinctions are kept that a plain value would lose. A number is a `natural` only if it is
written with digits alone and fits 64 bits; a sign, a fraction, an exponent or a greater value makes
it a number of another kind. A string is without a text if one of its escapes stands for half of a
surrogate pair.
-/

namespace MemcachedClient

/-- A document. -/
inductive Document where
  /-- The literal null. -/
  | null
  /-- A truth value. -/
  | truth (value : Bool)
  /-- A number of 64 bits that is written with digits alone. -/
  | natural (value : UInt64)
  /-- A number with a sign, a fraction or an exponent, or of more than 64 bits. -/
  | otherNumber
  /-- A string, and its text if it has one. -/
  | text (value : Option String)
  /-- An array. -/
  | array (elements : List Document)
  /-- An object, its members in the order of the document. -/
  | object (members : List (Option String × Document))

namespace Document

/-- A character that may stand between the parts of a document. -/
def isSpace (c : Char) : Bool :=
  c == ' ' || c == '\t' || c == '\n' || c == '\r'

/-- The text from its first character that is no space. -/
def skipSpace (cs : List Char) : List Char := cs.dropWhile isSpace

/-- A decimal digit. -/
def isDigit (c : Char) : Bool := '0' ≤ c && c ≤ '9'

/-- The value of a hexadecimal digit. -/
def hexDigit? (c : Char) : Option Nat :=
  if '0' ≤ c ∧ c ≤ '9' then some (c.toNat - '0'.toNat)
  else if 'a' ≤ c ∧ c ≤ 'f' then some (c.toNat - 'a'.toNat + 10)
  else if 'A' ≤ c ∧ c ≤ 'F' then some (c.toNat - 'A'.toNat + 10)
  else none

/-- The sixteen bits that four hexadecimal digits denote. -/
def hexUnit? (a b c d : Char) : Option Nat := do
  return (((← hexDigit? a) * 16 + (← hexDigit? b)) * 16 + (← hexDigit? c)) * 16 + (← hexDigit? d)

/-- The character that a one-letter escape stands for. -/
def escaped? : Char → Option Char
  | '"' => some '"'
  | '\\' => some '\\'
  | '/' => some '/'
  | 'b' => some '\x08'
  | 'f' => some '\x0c'
  | 'n' => some '\n'
  | 'r' => some '\r'
  | 't' => some '\t'
  | _ => none

/-- A part of a string: a character, or the sixteen bits of a numeric escape. -/
inductive Piece where
  /-- A character. -/
  | char (c : Char)
  /-- Sixteen bits, which are a character or half of one. -/
  | unit (bits : Nat)

/-- Reads the parts of a string up to its closing quote, and the rest after the quote. -/
def readPieces : List Char → Option (List Piece × List Char)
  | [] => none
  | '"' :: rest => some ([], rest)
  | '\\' :: 'u' :: a :: b :: c :: d :: rest => do
    let bits ← hexUnit? a b c d
    let (pieces, rest) ← readPieces rest
    return (.unit bits :: pieces, rest)
  | '\\' :: letter :: rest => do
    let c ← escaped? letter
    let (pieces, rest) ← readPieces rest
    return (.char c :: pieces, rest)
  | c :: rest =>
    if c.toNat < 0x20 then none
    else do
      let (pieces, rest) ← readPieces rest
      return (.char c :: pieces, rest)

/-- The characters of the parts of a string, unless half of a surrogate pair stands alone. -/
def assemble? : List Piece → Option (List Char)
  | [] => some []
  | .char c :: pieces => (assemble? pieces).map (c :: ·)
  | .unit high :: pieces =>
    if 0xD800 ≤ high ∧ high < 0xDC00 then
      match pieces with
      | .unit low :: pieces =>
        if 0xDC00 ≤ low ∧ low < 0xE000 then
          let code := 0x10000 + (high - 0xD800) * 0x400 + (low - 0xDC00)
          (assemble? pieces).map (Char.ofNat code :: ·)
        else none
      | _ => none
    else if 0xDC00 ≤ high ∧ high < 0xE000 then none
    else (assemble? pieces).map (Char.ofNat high :: ·)

/-- Reads a string after its opening quote. -/
def readString (cs : List Char) : Option (Option String × List Char) :=
  (readPieces cs).map fun (pieces, rest) => ((assemble? pieces).map String.ofList, rest)

/-- Reads one or more digits. -/
def readDigits (cs : List Char) : Option (List Char × List Char) :=
  match cs.takeWhile isDigit with
  | [] => none
  | digits => some (digits, cs.drop digits.length)

/-- Reads the digits before the point: a zero alone, or digits that do not start with one. -/
def readWhole : List Char → Option (List Char × List Char)
  | '0' :: rest => some (['0'], rest)
  | cs => readDigits cs

/-- Passes over a fraction, and answers whether there is one. -/
def readFraction : List Char → Option (Bool × List Char)
  | '.' :: cs => (readDigits cs).map fun (_, rest) => (true, rest)
  | cs => some (false, cs)

/-- Passes over an exponent, and answers whether there is one. -/
def readExponent : List Char → Option (Bool × List Char)
  | [] => some (false, [])
  | c :: cs =>
    if c = 'e' ∨ c = 'E' then
      let unsigned := match cs with
        | '+' :: rest => rest
        | '-' :: rest => rest
        | _ => cs
      (readDigits unsigned).map fun (_, rest) => (true, rest)
    else some (false, c :: cs)

/-- Reads a number without a sign. -/
def readUnsigned (cs : List Char) : Option (Document × List Char) := do
  let (digits, rest) ← readWhole cs
  let (fraction, rest) ← readFraction rest
  let (exponent, rest) ← readExponent rest
  if fraction || exponent then return (otherNumber, rest)
  else return ((Text.word64? digits).elim otherNumber natural, rest)

/-- Reads a number. -/
def readNumber : List Char → Option (Document × List Char)
  | '-' :: cs => (readUnsigned cs).map fun (_, rest) => (otherNumber, rest)
  | cs => readUnsigned cs

mutual

/-- Reads a value; `fuel` bounds the number of values and separators on the way. -/
def readValue : Nat → List Char → Option (Document × List Char)
  | 0, _ => none
  | fuel + 1, cs =>
    match skipSpace cs with
    | 'n' :: 'u' :: 'l' :: 'l' :: rest => some (null, rest)
    | 't' :: 'r' :: 'u' :: 'e' :: rest => some (truth true, rest)
    | 'f' :: 'a' :: 'l' :: 's' :: 'e' :: rest => some (truth false, rest)
    | '"' :: rest => (readString rest).map fun (value, rest) => (text value, rest)
    | '[' :: rest =>
      match skipSpace rest with
      | ']' :: rest => some (array [], rest)
      | rest => (readElements fuel rest).map fun (elements, rest) => (array elements, rest)
    | '\x7b' :: rest =>
      match skipSpace rest with
      | '\x7d' :: rest => some (object [], rest)
      | rest => (readMembers fuel rest).map fun (members, rest) => (object members, rest)
    | rest => readNumber rest

/-- Reads one or more elements, with commas between them, and the bracket after them. -/
def readElements : Nat → List Char → Option (List Document × List Char)
  | 0, _ => none
  | fuel + 1, cs => do
    let (element, rest) ← readValue fuel cs
    match skipSpace rest with
    | ',' :: rest =>
      let (elements, rest) ← readElements fuel rest
      return (element :: elements, rest)
    | ']' :: rest => return ([element], rest)
    | _ => none

/-- Reads one or more members, with commas between them, and the brace after them. -/
def readMembers : Nat → List Char → Option (List (Option String × Document) × List Char)
  | 0, _ => none
  | fuel + 1, cs =>
    match skipSpace cs with
    | '"' :: rest => do
      let (name, rest) ← readString rest
      match skipSpace rest with
      | ':' :: rest =>
        let (value, rest) ← readValue fuel rest
        match skipSpace rest with
        | ',' :: rest =>
          let (members, rest) ← readMembers fuel rest
          return ((name, value) :: members, rest)
        | '\x7d' :: rest => return ([(name, value)], rest)
        | _ => none
      | _ => none
    | _ => none

end

/-- The document that a whole text denotes. -/
def parse? (source : String) : Option Document :=
  match readValue (2 * source.length + 1) source.toList with
  | some (value, rest) => if (skipSpace rest).isEmpty then some value else none
  | none => none

/-- The members of an object whose names are among `names`; a name among them may occur once, and
each member needs a name with a text. -/
def knownMembers? (names : List String) :
    List (Option String × Document) → Option (List (String × Document))
  | [] => some []
  | (none, _) :: _ => none
  | (some name, value) :: members => do
    let known ← knownMembers? names members
    if ¬ names.contains name then return known
    else if (known.lookup name).isSome then none
    else return (name, value) :: known

/-- The settings that a document gives, for the names in the order of their declaration. -/
def settings? (names : List String) : Document → Option (List (String × Document))
  | array elements => if names.length < elements.length then none else some (names.zip elements)
  | object members => knownMembers? names members
  | _ => none

/-- The value of a setting, or its default if the document does not give it. -/
def setting? {α : Type} (settings : List (String × Document)) (name : String)
    (read : Document → Option α) (default : α) : Option α :=
  match settings.lookup name with
  | none => some default
  | some value => read value

/-- A number of 64 bits that is written with digits alone. -/
def asCount? : Document → Option Nat
  | natural value => some value.toNat
  | _ => none

/-- A truth value. -/
def asTruth? : Document → Option Bool
  | truth value => some value
  | _ => none

/-- A string with a text. -/
def asText? : Document → Option String
  | text value => value
  | _ => none

end Document

end MemcachedClient
