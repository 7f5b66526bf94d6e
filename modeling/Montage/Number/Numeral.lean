/-
Numbers written as text.

A numeral is an optional sign, digits with an optional point among or around
them, and an optional signed power of ten. `readNumber?` also takes the words
for infinities and for a missing value; `readInteger` takes whole numbers with
zeros in front and a fraction of zeros; `readReal?` and `readWhole?` take numbers
and whole numbers in the digits of any script. In all of them a single underscore may
stand between characters, in `readReal?` between digits only.
-/
import Montage.Number.Scalar
import Montage.Text.Blank
import Montage.Text.Digit

namespace Montage

/-- The longest run of digits that is read as a whole number. -/
def maxDigits : Nat := 4300

/-- The number with these digits, the leading one first. -/
def natOfDigits (ds : List Nat) : Nat := ds.foldl (fun n d => n * 10 + d) 0

/-- The ASCII digits at the front of a text, and the rest. -/
def spanDigits (s : List Char) : List Char × List Char :=
  (s.takeWhile (asciiDigit? · |>.isSome), s.dropWhile (asciiDigit? · |>.isSome))

/-- The number that a run of ASCII digits writes. -/
def natOfChars (s : List Char) : Nat := natOfDigits (s.filterMap asciiDigit?)

/-- A sign in front of a text: whether it is a minus, and the rest. -/
def spanSign : List Char → Bool × List Char
  | '-' :: rest => (true, rest)
  | '+' :: rest => (false, rest)
  | s => (false, s)

/-- The number `digits * 10^exponent`, negated or not. -/
structure Numeral where
  negative : Bool
  digits : Nat
  exponent : Int
deriving BEq, DecidableEq, Repr, Inhabited

namespace Numeral

/-- The power of ten at the end of a numeral, zero if there is none. -/
def power? : List Char → Option Int
  | [] => some 0
  | e :: rest =>
    if e = 'e' ∨ e = 'E' then
      let (negative, ds) := spanSign rest
      match spanDigits ds with
      | ([], _) => none
      | (digits, []) => some (if negative then -(natOfChars digits : Int) else natOfChars digits)
      | (_, _ :: _) => none
    else none

/-- The numeral that a whole text is. -/
def read? (s : List Char) : Option Numeral :=
  let (negative, body) := spanSign s
  let (whole, rest) := spanDigits body
  let (fraction, tail) := match rest with
    | '.' :: more => spanDigits more
    | _ => ([], rest)
  if whole.isEmpty && fraction.isEmpty then none
  else (power? tail).map fun e =>
    ⟨negative, natOfChars (whole ++ fraction), e - fraction.length⟩

/-- The number nearest to a numeral. -/
def value {α : Type} [Scalar α] (n : Numeral) : α :=
  let magnitude := Scalar.decimal n.digits n.exponent
  if n.negative then -magnitude else magnitude

end Numeral

/-- Whether no underscore ends a text or follows another, `last` being the
character before it. -/
def separated : Char → List Char → Bool
  | last, [] => last ≠ '_'
  | last, c :: rest => !(last = '_' && c = '_') && separated c rest

/-- A text without its underscores, if each stands alone between two other
characters and there is one at all. -/
def ungroup? (s : List Char) : Option (List Char) :=
  match s with
  | [] => none
  | c :: rest =>
    if c ≠ '_' && separated c rest && s.contains '_' then some (s.filter (· ≠ '_')) else none

/-- The same letters in lower case. -/
def lower (s : List Char) : List Char := s.map Char.toLower

/-- The infinity or missing value that a word names. -/
def special? {α : Type} [Scalar α] (s : List Char) : Option α :=
  let (negative, word) := spanSign s
  match String.ofList (lower word) with
  | "inf" => Scalar.infinity negative
  | "infinity" => Scalar.infinity negative
  | "nan" => Scalar.notANumber
  | _ => none

/-- The number that a text is, without underscores. -/
def plainNumber? {α : Type} [Scalar α] (s : List Char) : Option α :=
  match Numeral.read? s with
  | some n => some n.value
  | none => special? s

/-- The number that a text is: the text without white space around it, or else
the text as it stands without its underscores. -/
def readNumber? {α : Type} [Scalar α] (s : String) : Option α :=
  match plainNumber? (trim s.toList) with
  | some x => some x
  | none => (ungroup? s.toList).bind plainNumber?

/-- How a text fares as a whole number. -/
inductive IntegerText where
  | value (n : Int)
  | malformed
  | tooLong
deriving BEq, DecidableEq, Repr, Inhabited

/-- A text without the zeros in front and the underscores among them. They do not
count before a digit or a minus; before anything else the last of them does. -/
def dropLeadingZeros (s : List Char) : List Char :=
  let isFiller (c : Char) : Bool := c = '0' || c = '_'
  let rest := s.dropWhile isFiller
  match s, rest with
  | '0' :: _, c :: _ =>
    if c = '-' || (asciiDigit? c).isSome then rest
    else (s.takeWhile isFiller).getLast?.toList ++ rest
  | '0' :: _, [] => s.getLast?.toList
  | _, _ => s

/-- A text without a point and the zeros after it. -/
def dropZeroFraction (s : List Char) : List Char :=
  match s.dropWhile (· ≠ '.') with
  | '.' :: c :: rest => if (c :: rest).all (· = '0') then s.takeWhile (· ≠ '.') else s
  | _ => s

/-- The whole number that digits without a zero in front are, after a minus or none. -/
def plainInteger (s : List Char) : IntegerText :=
  let negative := s.head? == some '-'
  match spanDigits (if negative then s.drop 1 else s) with
  | ([], _) => .malformed
  | ('0' :: _ :: _, _) => .malformed
  | (digits, rest) =>
    if maxDigits < digits.length then .tooLong
    else if !rest.isEmpty then .malformed
    else .value (if negative then -(natOfChars digits : Int) else natOfChars digits)

/-- A whole number without what does not count: white space around it, a plus, zeros in
front, single underscores and a fraction of zeros. A minus may also stand behind the
zeros, instead of before them. -/
def bareInteger? (s : List Char) : Option (List Char) :=
  let (negative, body) := spanSign (trim s)
  if (body.head?.bind asciiDigit?).isNone then none
  else
    let digits := dropZeroFraction (dropLeadingZeros body)
    let digits := (ungroup? digits).getD digits
    some (if negative then '-' :: digits else digits)

/-- The whole number that a text is, as it stands or without what does not count. Only a
text that is too long as it stands is told so. -/
def readInteger (s : String) : IntegerText :=
  match plainInteger s.toList with
  | .malformed =>
    match (bareInteger? s.toList).map plainInteger with
    | some (.value n) => .value n
    | _ => .malformed
  | read => read

/-- A text in ASCII digits instead of those of any script, without its underscores; none
if one of them does not stand between two digits. -/
def plainDigits? (afterDigit : Bool) : List Char → Option (List Char)
  | [] => some []
  | ['_'] => none
  | '_' :: c :: rest =>
    if afterDigit && (digitValue? c).isSome then plainDigits? false (c :: rest) else none
  | c :: rest =>
    match digitValue? c with
    | some d => (plainDigits? true rest).map (Nat.digitChar d :: ·)
    | none => (plainDigits? false rest).map (c :: ·)

/-- The number that a text in the digits of any script is. -/
def readReal? {α : Type} [Scalar α] (s : String) : Option α :=
  (plainDigits? false (trim s.toList)).bind plainNumber?

/-- The whole number that a text in the digits of any script is. -/
def readWhole? (s : List Char) : Option Int :=
  let (negative, body) := spanSign (trim s)
  let ds := ((ungroup? body).getD body).map digitValue?
  if ds.isEmpty || ds.any (·.isNone) || maxDigits < ds.length then none
  else
    let n : Int := natOfDigits (ds.filterMap id)
    some (if negative then -n else n)

end Montage
