import AnnotationChecker.Token
/-!
# String literals

A literal is a marker, an opening quote, which is one quote character or three, and a body up to the
same quotes. The body of a literal with one quote character ends at the line's end at the latest. In a
raw literal a backslash protects the next character and stays; elsewhere it starts an escape, and an
escape without a meaning stays as it is written.
-/

namespace AnnotationChecker.StringBody

/-- What a literal stands for. -/
inductive Family where
  | text
  | bytes
  | formatted
deriving DecidableEq

/-- How a literal is read. -/
structure Flavor where
  family : Family
  raw : Bool
deriving DecidableEq

/-- A literal without a marker. -/
def Flavor.plain : Flavor := ⟨.text, false⟩

/-- The flavor that a marker announces, in either case. -/
def Flavor.ofMarker? (cs : List Char) : Option Flavor :=
  let word := String.ofList (cs.map Char.toLower)
  if word = "r" then some ⟨.text, true⟩
  else if word = "u" then some .plain
  else if word = "b" then some ⟨.bytes, false⟩
  else if word = "br" ∨ word = "rb" then some ⟨.bytes, true⟩
  else if word = "f" then some ⟨.formatted, false⟩
  else if word = "fr" ∨ word = "rf" then some ⟨.formatted, true⟩
  else none

/-- The token of a literal. -/
def Flavor.kind (f : Flavor) (value : List Char) : TokenKind :=
  match f.family with
  | .text => .string (String.ofList value)
  | .bytes => .bytes (String.ofList value)
  | .formatted => .formatted (String.ofList value)

/-- The body of a literal: its value, how many characters of the text it takes, and whether it ended
with its quotes. -/
structure Body where
  value : List Char
  length : Nat
  closed : Bool
deriving DecidableEq

/-- The body with more in front: `length` characters of text that stand for `value`. -/
def Body.after (length : Nat) (value : List Char) (b : Body) : Body :=
  ⟨value ++ b.value, length + b.length, b.closed⟩

/-- What a backslash and the character after it stand for. -/
def escape (c : Char) : List Char :=
  if c = 'n' then ['\n']
  else if c = 't' then ['\t']
  else if c = 'r' then ['\r']
  else if c = '0' then ['\x00']
  else if c = '\\' ∨ c = '\x27' ∨ c = '\x22' then [c]
  else if c = '\n' then []
  else ['\\', c]

/-- Do the next two characters complete a triple quote? -/
def completes (q : Char) : List Char → Bool
  | a :: b :: _ => a == q && b == q
  | _ => false

/-- Reads a body up to and with its closing quotes. -/
def read (q : Char) (triple raw : Bool) : List Char → Body
  | [] => ⟨[], 0, false⟩
  | c :: cs =>
    if c = '\n' ∧ triple = false then ⟨[], 0, false⟩
    else if c = q then
      if triple = false then ⟨[], 1, true⟩
      else if completes q cs then ⟨[], 3, true⟩
      else (read q triple raw cs).after 1 [c]
    else if c = '\\' then
      match cs with
      | [] => ⟨['\\'], 1, false⟩
      | d :: ds =>
        if raw = true then
          if d = '\n' then (read q triple raw (d :: ds)).after 1 ['\\']
          else (read q triple raw ds).after 2 ['\\', d]
        else (read q triple raw ds).after 2 (escape d)
    else (read q triple raw cs).after 1 [c]

section

variable {q c d : Char} {triple raw : Bool}

@[simp] theorem Body.closed_after (n : Nat) (vs : List Char) (b : Body) : (b.after n vs).closed = b.closed := rfl

@[simp] theorem Body.length_after (n : Nat) (vs : List Char) (b : Body) : (b.after n vs).length = n + b.length := rfl

theorem read_newline (q : Char) (raw : Bool) (cs : List Char) : read q false raw ('\n' :: cs) = ⟨[], 0, false⟩ := by
  rw [read.eq_def]
  simp

theorem read_quote (hq : q ≠ '\n') (raw : Bool) (cs : List Char) : read q false raw (q :: cs) = ⟨[], 1, true⟩ := by
  rw [read.eq_def]
  simp [hq]

theorem read_other (hn : ¬ (c = '\n' ∧ triple = false)) (hq : c ≠ q) (hb : c ≠ '\\') (raw : Bool) (cs : List Char) :
    read q triple raw (c :: cs) = (read q triple raw cs).after 1 [c] := by
  rw [read.eq_def]
  simp only [if_neg hn, if_neg hq, if_neg hb]

theorem read_escape (hq : '\\' ≠ q) (triple : Bool) (d : Char) (cs : List Char) :
    read q triple false ('\\' :: d :: cs) = (read q triple false cs).after 2 (escape d) := by
  rw [read.eq_def]
  simp [hq]

/-- A raw backslash and the character that it protects. -/
theorem read_protected (hq : '\\' ≠ q) (hd : d ≠ '\n') (triple : Bool) (cs : List Char) :
    read q triple true ('\\' :: d :: cs) = (read q triple true cs).after 2 ['\\', d] := by
  rw [read.eq_def]
  simp [hq, hd]

end

/-- Reads a literal after its first quote: the length counts from there. -/
def readQuoted (q : Char) (raw : Bool) (cs : List Char) : Body :=
  if completes q cs then (read q true raw (cs.drop 2)).after 2 [] else read q false raw cs

end AnnotationChecker.StringBody
