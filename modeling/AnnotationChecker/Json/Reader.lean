import AnnotationChecker.Json
import AnnotationChecker.Binary64
/-!
# Reading JSON

A text is read as one value with blanks around it. Reading is strict: containers nest at most
`maxNesting` deep, a surrogate escape needs its partner, and a number may not overflow. A reader that
has no use for some member of the outermost object asks only that it be well-formed
(`Json.parseKnowing?`).
-/

namespace AnnotationChecker.Json

/-- Takes a value off the front of a text. -/
abbrev Reader (α : Type) := List Char → Option (α × List Char)

/-- How deep containers may nest. -/
def maxNesting : Nat := 127

/-- The blanks between the parts of a value. -/
def isBlank (c : Char) : Bool := c == ' ' || c == '\n' || c == '\t' || c == '\r'

def skipBlanks (cs : List Char) : List Char := cs.dropWhile isBlank

/-! ## Strings -/

/-- The value of a hexadecimal digit. -/
def hexValue? (c : Char) : Option Nat :=
  if '0' ≤ c ∧ c ≤ '9' then some (c.toNat - 48)
  else if 'a' ≤ c ∧ c ≤ 'f' then some (c.toNat - 87)
  else if 'A' ≤ c ∧ c ≤ 'F' then some (c.toNat - 55)
  else none

/-- The value of four hexadecimal digits. -/
def hexValue4? (a b c d : Char) : Option Nat := do
  let a ← hexValue? a
  let b ← hexValue? b
  let c ← hexValue? c
  let d ← hexValue? d
  some (((a * 16 + b) * 16 + c) * 16 + d)

/-- The character that an escape letter stands for. -/
def unescape? (c : Char) : Option Char :=
  if c = '\x22' ∨ c = '\\' ∨ c = '/' then some c
  else if c = 'b' then some '\x08'
  else if c = 'f' then some '\x0c'
  else if c = 'n' then some '\n'
  else if c = 'r' then some '\r'
  else if c = 't' then some '\t'
  else none

/-- A part of a string: a character, or a code unit of 16 bits that was escaped. -/
inductive StringPart where
  | char (c : Char)
  | unit (n : Nat)
deriving DecidableEq

/-- Reads the parts of a string up to and with its closing quote. -/
def readParts : Reader (List StringPart)
  | [] => none
  | c :: cs =>
    if c = '\x22' then some ([], cs)
    else if c = '\\' then
      match cs with
      | [] => none
      | e :: es =>
        if e = 'u' then
          match es with
          | h1 :: h2 :: h3 :: h4 :: rest =>
            match hexValue4? h1 h2 h3 h4 with
            | some n => (readParts rest).map fun p => (.unit n :: p.1, p.2)
            | none => none
          | _ => none
        else
          match unescape? e with
          | some x => (readParts es).map fun p => (.char x :: p.1, p.2)
          | none => none
    else if c.toNat < 0x20 then none
    else (readParts cs).map fun p => (.char c :: p.1, p.2)

/-- The first half of a pair of code units. -/
def isHighUnit (n : Nat) : Bool := 0xd800 ≤ n && n < 0xdc00

/-- The second half of a pair of code units. -/
def isLowUnit (n : Nat) : Bool := 0xdc00 ≤ n && n < 0xe000

/-- The character that a pair of code units stands for. -/
def pairChar (high low : Nat) : Char := Char.ofNat (0x10000 + (high - 0xd800) * 0x400 + (low - 0xdc00))

/-- The character of a code unit without a partner. Half a pair is no character; a reader that does not
insist on pairs takes a replacement for it. -/
def singleChar? (strict : Bool) (n : Nat) : Option Char :=
  if isHighUnit n || isLowUnit n then if strict then none else some '\ufffd'
  else some (Char.ofNat n)

/-- Joins code units into characters. -/
def joinParts (strict : Bool) : List StringPart → Option (List Char)
  | [] => some []
  | .char c :: ps => (joinParts strict ps).map (c :: ·)
  | [.unit n] => (singleChar? strict n).map ([·])
  | .unit n :: .char c :: ps =>
    (singleChar? strict n).bind fun x => (joinParts strict ps).map (x :: c :: ·)
  | .unit n :: .unit m :: ps =>
    if isHighUnit n && isLowUnit m then (joinParts strict ps).map (pairChar n m :: ·)
    else (singleChar? strict n).bind fun x => (joinParts strict (.unit m :: ps)).map (x :: ·)

/-- Reads a string after its opening quote. -/
def readString (strict : Bool) : Reader String := fun cs => do
  let (parts, rest) ← readParts cs
  let chars ← joinParts strict parts
  some (String.ofList chars, rest)

/-! ## Numbers -/

/-- The number that decimal digits stand for. -/
def ofDigits (ds : List Char) : Nat := ds.foldl (fun n c => n * 10 + (c.toNat - 48)) 0

/-- The digits before the point: a zero, or digits that do not start with one. -/
def readWhole (cs : List Char) : List Char :=
  match cs with
  | '0' :: _ => ['0']
  | _ => cs.takeWhile Char.isDigit

/-- A point and at least one digit; nothing when there is no point. -/
def readFraction : Reader (Option (List Char))
  | '.' :: cs =>
    let ds := cs.takeWhile Char.isDigit
    if ds = [] then none else some (some ds, cs.drop ds.length)
  | cs => some (none, cs)

/-- An exponent with its sign and digits; nothing when there is no exponent. -/
def readExponent : Reader (Option Int)
  | [] => some (none, [])
  | e :: cs =>
    if e = 'e' ∨ e = 'E' then
      let digits := match cs with
        | s :: rest => if s = '+' ∨ s = '-' then rest else cs
        | [] => []
      let ds := digits.takeWhile Char.isDigit
      if ds = [] then none
      else some (some (if cs.head? = some '-' then -(ofDigits ds : Int) else ofDigits ds), digits.drop ds.length)
    else some (none, e :: cs)

/-- Is the number `digits * 10 ^ e` too large for 64 bits? -/
def overflows (digits : List Char) (e : Int) : Bool :=
  308 < digits.length + e && Binary64.ofDecimal (ofDigits digits) e == .infinite false

/-- Reads a number. -/
def readNumber (strict : Bool) : Reader Json := fun cs => do
  let negative := cs.head? = some '-'
  let body := if negative then cs.drop 1 else cs
  let whole := readWhole body
  if whole = [] then none
  let (fraction, rest) ← readFraction (body.drop whole.length)
  let (exponent, rest) ← readExponent rest
  let places := fraction.getD []
  if strict && overflows (whole ++ places) (exponent.getD 0 - places.length) then none
  if fraction.isSome || exponent.isSome || (negative && whole == ['0']) then
    some (.decimal (String.ofList (cs.take (cs.length - rest.length))), rest)
  else
    let n : Int := ofDigits whole
    some (.int (if negative then -n else n), rest)

/-! ## Values -/

/-- Items between commas, up to and with a closing bracket. The number bounds how many there are. -/
def readItems {α : Type} (item : Reader α) (close : Char) : Nat → Reader (List α)
  | 0, _ => none
  | n + 1, cs =>
    match item cs with
    | none => none
    | some (v, rest) =>
      match skipBlanks rest with
      | [] => none
      | c :: rest =>
        if c = ',' then (readItems item close n rest).map fun p => (v :: p.1, p.2)
        else if c = close then some ([v], rest)
        else none

/-- A list of items after its opening bracket; it may be empty. -/
def readList {α : Type} (item : Reader α) (close : Char) : Reader (List α) := fun cs =>
  match skipBlanks cs with
  | [] => none
  | c :: rest => if c = close then some ([], rest) else readItems item close cs.length cs

/-- A key, a colon and a value, whose reader may depend on the key. -/
def readMember (strict : Bool) (value : String → Reader Json) : Reader (String × Json) := fun cs =>
  match skipBlanks cs with
  | '\x22' :: rest => do
    let (key, rest) ← readString strict rest
    match skipBlanks rest with
    | ':' :: rest =>
      let (v, rest) ← value key rest
      some ((key, v), rest)
    | _ => none
  | _ => none

/-- Takes a given text off the front. -/
def readWord (word : String) (v : Json) : Reader Json := fun cs =>
  if word.toList.isPrefixOf cs then some (v, cs.drop word.length) else none

/-- Reads a value whose containers nest at most `room` deep. -/
def readValue (strict : Bool) (room : Nat) (cs : List Char) : Option (Json × List Char) :=
  match skipBlanks cs with
  | [] => none
  | c :: rest =>
    if c = '\x22' then (readString strict rest).map fun p => (.string p.1, p.2)
    else if c = '[' then
      match room with
      | 0 => none
      | room + 1 => (readList (readValue strict room) ']' rest).map fun p => (.array p.1, p.2)
    else if c = '\x7b' then
      match room with
      | 0 => none
      | room + 1 =>
        (readList (readMember strict fun _ => readValue strict room) '\x7d' rest).map fun p => (.object p.1, p.2)
    else if c = 'n' then readWord "null" .null (c :: rest)
    else if c = 't' then readWord "true" (.bool true) (c :: rest)
    else if c = 'f' then readWord "false" (.bool false) (c :: rest)
    else readNumber strict (c :: rest)

/-- Reads a value. The members of an outermost object that are not known have to be well-formed and no
more. -/
def readOutermost (known : String → Bool) : Reader Json := fun cs =>
  match skipBlanks cs with
  | '\x7b' :: rest =>
    let member := readMember true fun key =>
      if known key then readValue true (maxNesting - 1) else readValue false cs.length
    (readList member '\x7d' rest).map fun p => (.object p.1, p.2)
  | _ => readValue true maxNesting cs

/-- The value that a whole text stands for. -/
def whole? (r : Reader Json) (s : String) : Option Json :=
  match r s.toList with
  | some (v, rest) => if skipBlanks rest = [] then some v else none
  | none => none

/-- Reads a text strictly. -/
def parse? (s : String) : Option Json := whole? (readValue true maxNesting) s

/-- Reads a text strictly but for the members of the outermost object that are not known. -/
def parseKnowing? (known : String → Bool) (s : String) : Option Json := whole? (readOutermost known) s

/-- Reads a text that has to be well-formed and no more. -/
def parseLoosely? (s : String) : Option Json := whole? (readValue false s.length) s

end AnnotationChecker.Json
