/-!
# IP addresses

The two forms of an address literal and their texts. A version 4 address is four decimal octets,
none with a leading zero. A version 6 address is eight groups of up to four hexadecimal digits; one
run of zero groups may be left out as a double colon, and the last two groups may be written as four
decimal octets. `IpAddress.text` writes the canonical form: lower-case digits without leading zeros
and the first of the longest runs of two or more zero groups left out.
-/

namespace MemcachedClient

/-- An address literal. -/
inductive IpAddress where
  /-- Version 4: four octets. -/
  | v4 (a b c d : UInt8)
  /-- Version 6: eight groups of sixteen bits. -/
  | v6 (groups : List UInt16) (eight : groups.length = 8)
  deriving DecidableEq

namespace IpAddress

/-- The value of a digit, in any base up to sixteen. -/
def digitValue (c : Char) : Nat :=
  if '0' ≤ c ∧ c ≤ '9' then c.toNat - '0'.toNat
  else if 'a' ≤ c ∧ c ≤ 'f' then c.toNat - 'a'.toNat + 10
  else if 'A' ≤ c ∧ c ≤ 'F' then c.toNat - 'A'.toNat + 10
  else 16

/-- The value of a run of digits in a base. -/
def digitsValue (base : Nat) (digits : List Char) : Nat :=
  digits.foldl (fun value c => base * value + digitValue c) 0

/-- Reads an octet: up to three decimal digits, the first not 0 unless it is the only one. -/
def readOctet (cs : List Char) : Option (UInt8 × List Char) :=
  let digits := cs.takeWhile fun c => digitValue c < 10
  let value := digitsValue 10 digits
  if digits = [] ∨ 3 < digits.length ∨ 256 ≤ value then none
  else if digits.head? = some '0' ∧ 1 < digits.length then none
  else some (UInt8.ofNat value, cs.drop digits.length)

/-- Reads a group: one to four hexadecimal digits. -/
def readGroup (cs : List Char) : Option (UInt16 × List Char) :=
  let digits := cs.takeWhile fun c => digitValue c < 16
  if digits = [] ∨ 4 < digits.length then none
  else some (UInt16.ofNat (digitsValue 16 digits), cs.drop digits.length)

/-- Reads a character that has to come next. -/
def readMark (mark : Char) : List Char → Option (List Char)
  | [] => none
  | c :: cs => if c = mark then some cs else none

/-- Reads four octets with points between them. -/
def readOctets (cs : List Char) : Option ((UInt8 × UInt8 × UInt8 × UInt8) × List Char) := do
  let (a, cs) ← readOctet cs
  let cs ← readMark '.' cs
  let (b, cs) ← readOctet cs
  let cs ← readMark '.' cs
  let (c, cs) ← readOctet cs
  let cs ← readMark '.' cs
  let (d, cs) ← readOctet cs
  return ((a, b, c, d), cs)

/-- Two octets as one group. -/
def groupOf (high low : UInt8) : UInt16 := UInt16.ofNat (256 * high.toNat + low.toNat)

/-- Reads as many groups as there are, at most `limit`, with colons between them; `first` says that
no colon stands before the next one. Four octets may stand for the last two groups, and end the
reading. Answers the groups, whether octets ended them, and the rest. -/
def readGroups : Nat → Bool → List Char → List UInt16 × Bool × List Char
  | 0, _, cs => ([], false, cs)
  | limit + 1, first, cs =>
    match (if first then some cs else readMark ':' cs) with
    | none => ([], false, cs)
    | some next =>
      match (if limit = 0 then none else readOctets next) with
      | some ((a, b, c, d), rest) => ([groupOf a b, groupOf c d], true, rest)
      | none =>
        match readGroup next with
        | none => ([], false, cs)
        | some (group, rest) =>
          let (groups, octets, rest) := readGroups limit false rest
          (group :: groups, octets, rest)

/-- The address of eight groups. -/
def ofGroups? (groups : List UInt16) : Option IpAddress :=
  if h : groups.length = 8 then some (v6 groups h) else none

/-- Reads a version 6 address. Octets may not stand before the double colon, and the double colon
stands for at least one group. -/
def readV6 (cs : List Char) : Option (IpAddress × List Char) :=
  let (head, octets, rest) := readGroups 8 true cs
  if head.length = 8 then (ofGroups? head).map (·, rest)
  else if octets then none
  else do
    let rest ← readMark ':' rest
    let rest ← readMark ':' rest
    let (tail, _, rest) := readGroups (7 - head.length) true rest
    let zeros := List.replicate (8 - head.length - tail.length) 0
    (ofGroups? (head ++ zeros ++ tail)).map (·, rest)

/-- The address that a whole text denotes. -/
def parse? (text : String) : Option IpAddress :=
  let read := match readOctets text.toList with
    | some ((a, b, c, d), rest) => some (v4 a b c d, rest)
    | none => readV6 text.toList
  match read with
  | some (address, []) => some address
  | _ => none

/-- The text of four octets. -/
def octetsText (a b c d : UInt8) : String :=
  ".".intercalate ([a, b, c, d].map fun octet => Nat.repr octet.toNat)

/-- The text of some groups, with colons between them. -/
def groupsText (groups : List UInt16) : String :=
  ":".intercalate (groups.map fun group => String.ofList (Nat.toDigits 16 group.toNat))

/-- The first of the longest runs of zero groups: its position and its length. -/
def longestZeros (groups : List UInt16) : Nat × Nat :=
  (List.range groups.length).foldl
    (fun best start =>
      let length := ((groups.drop start).takeWhile (· = 0)).length
      if best.2 < length then (start, length) else best)
    (0, 0)

/-- The canonical text of eight groups. -/
def compressedText (groups : List UInt16) : String :=
  let (start, length) := longestZeros groups
  if 1 < length then
    groupsText (groups.take start) ++ "::" ++ groupsText (groups.drop (start + length))
  else groupsText groups

/-- The canonical text of an address. An embedded version 4 address keeps its octets. -/
def text : IpAddress → String
  | v4 a b c d => octetsText a b c d
  | v6 groups _ =>
    match groups with
    | [0, 0, 0, 0, 0, 0xFFFF, high, low] =>
      "::ffff:" ++ octetsText (high >>> 8).toUInt8 high.toUInt8 (low >>> 8).toUInt8 low.toUInt8
    | _ => compressedText groups

/-- The text of an address with a port. -/
def withPort (address : IpAddress) (port : UInt16) : String :=
  match address with
  | v4 .. => address.text ++ ":" ++ Nat.repr port.toNat
  | v6 .. => "[" ++ address.text ++ "]:" ++ Nat.repr port.toNat

end IpAddress

end MemcachedClient
