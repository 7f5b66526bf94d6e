/-
JSON texts read as values.

The reader goes over the characters once and names the character at which a
malformed text fails: where a value, a name, a colon or a comma was expected,
at the opening quote of a text that does not end, at a control character, or at
the backslash or the `u` of a bad escape. The words for an infinity and for a
missing number are numbers. A list or an object that stands inside too many others
is not entered. Fuel bounds the number of calls; twice the number of characters
suffices, as of two calls in a row one takes a character.
-/
import Montage.Json.Value
import Montage.Number.Numeral
import Montage.Text.Half

namespace Montage.Json

/-- Why a text is no JSON value: it fails at a character, writes a whole number of
too many digits, or nests its lists and objects too deep. -/
inductive Unreadable where
  | malformed (offset : Nat)
  | tooLong
  | tooDeep
deriving BEq, DecidableEq, Repr, Inhabited

/-- Where reading stopped: the rest of the text at the failure. -/
inductive Stop where
  | malformed (rest : List Char)
  | tooLong
  | tooDeep

/-- What was read, and the rest of the text. -/
abbrev Step (β : Type) := Except Stop (β × List Char)

/-- The text after white space. -/
def skip (s : List Char) : List Char :=
  s.dropWhile fun c => c = ' ' || c = '\t' || c = '\n' || c = '\r'

/-- The rest of a text after a word. -/
def word? : List Char → List Char → Option (List Char)
  | [], s => some s
  | c :: w, d :: s => if c = d then word? w s else none
  | _ :: _, [] => none

/-- The number of four hexadecimal digits that something follows. -/
def hexUnit? : List Char → Option (Nat × List Char)
  | a :: b :: c :: d :: e :: rest => do
    let a ← hexDigit? a
    let b ← hexDigit? b
    let c ← hexDigit? c
    let d ← hexDigit? d
    pure (((a * 16 + b) * 16 + c) * 16 + d, e :: rest)
  | _ => none

/-- What an escape other than `u` stands for. -/
def escaped? : Char → Option Char
  | '"' => some '"'
  | '\\' => some '\\'
  | '/' => some '/'
  | 'b' => some '\x08'
  | 'f' => some '\x0c'
  | 'n' => some '\n'
  | 'r' => some '\r'
  | 't' => some '\t'
  | _ => none

/-- The code point of an escape `\u`, `s` being the text from the `u` on. -/
def unicode (s : List Char) : Step Nat :=
  match hexUnit? s.tail with
  | none => .error (.malformed s)
  | some (high, rest) =>
    if isHighHalf high && decide (6 < rest.length) then
      match rest with
      | '\\' :: 'u' :: more =>
        match hexUnit? more with
        | none => .error (.malformed ('u' :: more))
        | some (low, after) =>
          if isLowHalf low then .ok (joinHalves high low, after)
          else .ok (high, rest)
      | _ => .ok (high, rest)
    else .ok (high, rest)

/-- The characters of a text up to its closing quote. `start` is the text from
the opening quote on, `done` the characters so far, the last one first. -/
def chars (start : List Char) (done : List Char) : List Char → Nat → Step String
  | _, 0 => .error (.malformed start)
  | [], _ => .error (.malformed start)
  | '"' :: rest, _ => .ok (String.ofList done.reverse, rest)
  | '\\' :: [], _ => .error (.malformed start)
  | '\\' :: 'u' :: rest, fuel + 1 =>
    match unicode ('u' :: rest) with
    | .error stop => .error stop
    | .ok (n, rest) => chars start ((keep n).reverse ++ done) rest fuel
  | '\\' :: c :: rest, fuel + 1 =>
    match escaped? c with
    | none => .error (.malformed ('\\' :: c :: rest))
    | some d => chars start (d :: done) rest fuel
  | c :: rest, fuel + 1 =>
    if c.toNat ≤ 0x1f then .error (.malformed (c :: rest))
    else chars start (c :: done) rest fuel

/-- The text whose characters follow an opening quote. -/
def quoted (s : List Char) : Step String := chars ('"' :: s) [] s (s.length + 1)

/-- The whole part of a number: a zero, or digits that start with another. -/
def wholePart? (s : List Char) : Option (List Char × List Char) :=
  match s with
  | '0' :: rest => some (['0'], rest)
  | _ => match spanDigits s with
    | ([], _) => none
    | found => some found

/-- The digits after a point, if a point and a digit follow. -/
def fractionPart (s : List Char) : List Char × List Char :=
  match s with
  | '.' :: rest => match spanDigits rest with
    | ([], _) => ([], s)
    | found => found
  | _ => ([], s)

/-- The power of ten, if a letter, perhaps a sign, and a digit follow. -/
def powerPart (s : List Char) : Option Int × List Char :=
  match s with
  | e :: rest =>
    if e = 'e' ∨ e = 'E' then
      let (negative, body) := spanSign rest
      match spanDigits body with
      | ([], _) => (none, s)
      | (ds, after) =>
        (some (if negative then -(natOfChars ds : Int) else natOfChars ds), after)
    else (none, s)
  | [] => (none, s)

variable {α : Type} [Scalar α]

/-- A number. -/
def number (s : List Char) : Step (Json α) :=
  let (negative, body) := match s with
    | '-' :: rest => (true, rest)
    | _ => (false, s)
  match wholePart? body with
  | none => .error (.malformed s)
  | some (whole, afterWhole) =>
    let (fraction, afterFraction) := fractionPart afterWhole
    let (power, rest) := powerPart afterFraction
    if fraction.isEmpty && power.isNone then
      if maxDigits < whole.length then .error .tooLong
      else
        let n : Int := natOfChars whole
        .ok (.int (if negative then -n else n), rest)
    else
      let numeral : Numeral :=
        ⟨negative, natOfChars (whole ++ fraction), power.getD 0 - fraction.length⟩
      .ok (.real numeral.value, rest)

/-- A word that is a value. -/
def wordValue? (s : List Char) : Option (Json α × List Char) :=
  let named (w : String) (value : Option (Json α)) : Option (Json α × List Char) :=
    match value, word? w.toList s with
    | some v, some rest => some (v, rest)
    | _, _ => none
  named "null" (some .null) <|> named "true" (some (.bool true)) <|>
    named "false" (some (.bool false)) <|> named "NaN" (Scalar.notANumber.map .real) <|>
    named "Infinity" ((Scalar.infinity false).map .real) <|>
    named "-Infinity" ((Scalar.infinity true).map .real)

/-- How deep lists and objects may be nested. -/
def deepest : Nat := 960

mutual

/-- A value inside which lists and objects may be nested to some depth. -/
def value (depth : Nat) (s : List Char) : Nat → Step (Json α)
  | 0 => .error (.malformed s)
  | fuel + 1 =>
    match s with
    | '"' :: rest => (quoted rest).map fun (t, rest) => (.text t, rest)
    | '{' :: rest =>
      match depth, skip rest with
      | 0, _ => .error .tooDeep
      | _, '}' :: rest => .ok (.object [], rest)
      | depth + 1, inside => members depth [] inside fuel
    | '[' :: rest =>
      match depth, skip rest with
      | 0, _ => .error .tooDeep
      | _, ']' :: rest => .ok (.list [], rest)
      | depth + 1, inside => items depth [] inside fuel
    | _ => match wordValue? s with
      | some found => .ok found
      | none => number s

/-- The items of a list up to its bracket, `done` being those before, the last
one first. -/
def items (depth : Nat) (done : List (Json α)) (s : List Char) : Nat → Step (Json α)
  | 0 => .error (.malformed s)
  | fuel + 1 =>
    match value depth s fuel with
    | .error stop => .error stop
    | .ok (v, rest) =>
      match skip rest with
      | ']' :: rest => .ok (.list (v :: done).reverse, rest)
      | ',' :: rest => items depth (v :: done) (skip rest) fuel
      | rest => .error (.malformed rest)

/-- The fields of an object up to its brace. -/
def members (depth : Nat) (done : Fields α) (s : List Char) : Nat → Step (Json α)
  | 0 => .error (.malformed s)
  | fuel + 1 =>
    match s with
    | '"' :: rest =>
      match quoted rest with
      | .error stop => .error stop
      | .ok (name, rest) =>
        match skip rest with
        | ':' :: rest =>
          match value depth (skip rest) fuel with
          | .error stop => .error stop
          | .ok (v, rest) =>
            match skip rest with
            | '}' :: rest => .ok (.object (done.put name v), rest)
            | ',' :: rest => members depth (done.put name v) (skip rest) fuel
            | rest => .error (.malformed rest)
        | rest => .error (.malformed rest)
    | _ => .error (.malformed s)

end

/-- The value that a text is. A failure is told by how many code points stand before it. -/
def read (text : String) : Except Unreadable (Json α) :=
  let s := text.toList
  let place (rest : List Char) : Unreadable :=
    .malformed (codesOf (s.take (s.length - rest.length))).length
  match value deepest (skip s) (2 * s.length + 2) with
  | .error (.malformed rest) => .error (place rest)
  | .error .tooLong => .error .tooLong
  | .error .tooDeep => .error .tooDeep
  | .ok (v, rest) =>
    match skip rest with
    | [] => .ok v
    | extra => .error (place extra)

end Montage.Json
