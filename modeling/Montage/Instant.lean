/-
Moments in time.

An instant is read from a date with a time of day and perhaps a zone, from a date
alone, or from a count of seconds since the start of 1970; a count too large for
seconds is one of thousandths. The calendar has the years from 1 to 9999; a time of
the year before them can be read but not kept. An instant without a zone is local, and
has no place among those that have one.
-/
import Montage.Schema.Read

namespace Montage

/-- A moment, in microseconds since the start of 1970 in its zone, or on a local clock. -/
structure Instant where
  micros : Int
  isLocal : Bool
deriving BEq, DecidableEq, Repr, Inhabited

namespace Instant

/-- The nth tick of the clock; it ticks each second. -/
def tick (n : Nat) : Instant := ⟨(1704067200 + n) * 1000000, false⟩

/-- Things in an order of their times; none if some are local and some are not. -/
def sorted? {β : Type} (time : β → Instant) (order : Int → Int → Bool) (xs : List β) :
    Option (List β) :=
  if xs.any (fun x => (time x).isLocal) && xs.any (fun x => !(time x).isLocal) then none
  else some (xs.mergeSort fun a b => order (time a).micros (time b).micros)

/-! Dates. -/

def isLeap (year : Nat) : Bool := year % 4 = 0 && (year % 100 ≠ 0 || year % 400 = 0)

/-- The days of a month; none if there is no such month. -/
def monthLength (year month : Nat) : Nat :=
  if month = 2 then if isLeap year then 29 else 28
  else if [4, 6, 9, 11].contains month then 30
  else if 1 ≤ month ∧ month ≤ 12 then 31
  else 0

/-- The days from the first of January of the year one to a date. -/
def dayNumber (year month day : Nat) : Int :=
  let past : Int := (year : Int) - 1
  let months := (List.range month).map (monthLength year)
  365 * past + past / 4 - past / 100 + past / 400 + (months.foldl (· + ·) 0 + (day - 1) : Nat)

/-- The number that some digits at the front of a text write, and the rest. -/
def digits? (count : Nat) (s : List Char) : Option (Nat × List Char) :=
  let ds := s.take count
  if ds.length = count ∧ ds.all (asciiDigit? · |>.isSome) then some (natOfChars ds, s.drop count)
  else none

/-- The text after one of some characters. -/
def after? (marks : List Char) : List Char → Option (List Char)
  | c :: rest => if marks.contains c then some rest else none
  | [] => none

/-- A date at the front of a text, as days since the start of 1970. -/
def date? (s : List Char) : Option (Int × List Char) := do
  let (year, s) ← digits? 4 s
  let (month, s) ← digits? 2 (← after? ['-'] s)
  let (day, s) ← digits? 2 (← after? ['-'] s)
  if day = 0 ∨ monthLength year month < day then none
  else some (dayNumber year month day - dayNumber 1970 1 1, s)

/-! Times of day. -/

/-- The microseconds of a second at the front of a text, six digits of them at most. -/
def fraction? (s : List Char) : Option (Nat × List Char) :=
  match after? ['.', ','] s with
  | none => some (0, s)
  | some s =>
    let (ds, rest) := spanDigits s
    if ds.isEmpty then none
    else some (natOfChars ((ds ++ List.replicate 6 '0').take 6), rest)

/-- The seconds of a minute, if there are any at the front of a text, in microseconds. -/
def seconds? (s : List Char) : Option (Nat × List Char) :=
  match after? [':'] s with
  | none => some (0, s)
  | some s => do
    let (second, s) ← digits? 2 s
    let (fraction, s) ← fraction? s
    if 59 < second then none else some (second * 1000000 + fraction, s)

/-- A time of day at the front of a text, in microseconds. -/
def time? (s : List Char) : Option (Nat × List Char) := do
  let (hour, s) ← digits? 2 s
  let (minute, s) ← digits? 2 (← after? [':'] s)
  let (rest, s) ← seconds? s
  if 23 < hour ∨ 59 < minute then none else some ((hour * 60 + minute) * 60000000 + rest, s)

/-- The zone that a text names, in microseconds ahead of the common one; an empty text
names none. -/
def zone? : List Char → Option (Option Int)
  | [] => some none
  | ['Z'] => some (some 0)
  | ['z'] => some (some 0)
  | sign :: s => do
    let (hour, s) ← digits? 2 s
    let (minute, s) ← digits? 2 ((after? [':'] s).getD s)
    let ahead : Int := (hour * 60 + minute) * 60000000
    if !s.isEmpty ∨ 23 < hour ∨ 59 < minute then none
    else if sign = '+' then some (some ahead)
    else if sign = '-' ∨ sign.toNat = 0x2212 then some (some (-ahead))
    else none

/-- The length of a day. -/
def dayMicros : Int := 86400000000

/-- The start of a year. -/
def startOf (year : Nat) : Int := (dayNumber year 1 1 - dayNumber 1970 1 1) * dayMicros

/-- A time that has been read, if the calendar has it. -/
def kept (micros : Int) (isLocal : Bool) : Except Fault Instant :=
  if micros < startOf 1 then .error .notMomentCount else .ok ⟨micros, isLocal⟩

/-- The instant that a text names by its date. -/
def ofDate? (s : List Char) : Option (Except Fault Instant) := do
  let (day, s) ← date? s
  match s with
  | [] => some (kept (day * dayMicros) true)
  | _ =>
    let (time, s) ← time? (← after? ['T', 't', ' ', '_'] s)
    match ← zone? s with
    | none => some (kept (day * dayMicros + time) true)
    | some ahead =>
      some ((kept (day * dayMicros + time) false).map fun i => { i with micros := i.micros - ahead })

/-! Counts. -/

/-- The largest count that is one of seconds. -/
def mostSeconds : Nat := 20000000000

/-- The instant some microseconds after the start of 1970, or why there is none: a time
that cannot be read has the given fault. -/
def ofMicros (unread : Fault) (micros : Int) : Except Fault Instant :=
  if micros < startOf 0 ∨ startOf 10000 ≤ micros then .error unread else kept micros false

/-- The instant of a whole count. -/
def ofWhole (unread : Fault) (n : Int) : Except Fault Instant :=
  ofMicros unread (n * if n.natAbs ≤ mostSeconds then 1000000 else 1000)

variable {α : Type} [Scalar α]

/-- The whole number nearest to a number that is not negative, a half being rounded up; zero
for what is not finite. -/
def nearestWhole (x : α) : Int :=
  match Scalar.exact x with
  | .finite q => (q + 1 / 2).floor
  | _ => 0

/-- The instant of any count: as many whole seconds or milliseconds as it has, and the part behind
them to the nearest microsecond. -/
def ofReal (unread : Fault) (x : α) : Except Fault Instant :=
  match Scalar.exact x with
  | .finite q =>
    let unit : Nat := if mostSeconds < q ∨ q < -mostSeconds then 1000 else 1000000
    let part : α := (Scalar.nearest (q - q.floor)).getD 0.0
    ofMicros unread (q.floor * unit + nearestWhole (part * Scalar.decimal unit 0))
  | _ => .error unread

/-- The instant of a count that a text writes: digits alone, or a number with a point
behind nothing but digits. -/
def ofCountText (s : List Char) : Except Fault Instant :=
  match spanDigits (spanSign s).2, Numeral.read? s with
  | (_, []), some n => ofWhole .notMomentText (if n.negative then -(n.digits : Int) else n.digits)
  | (_, '.' :: _), some n => ofReal .notMomentText (n.value : α)
  | _, _ => .error .notMomentText

end Instant

/-- An instant. -/
def Read.instant {α : Type} [Scalar α] (j : Json α) : Report Instant :=
  let report : Except Fault Instant → Report Instant
    | .ok i => .valid i
    | .error f => .fault f
  match j with
  | .int n =>
    if (Scalar.nearest (n : Rat) : Option α).isNone then .fault .notMoment
    else report (Instant.ofWhole .notMomentCount n)
  | .real x => report (Instant.ofReal .notMomentCount x)
  | .text s => words s fun s =>
    match Instant.ofDate? s.toList with
    | some dated => report dated
    | none => report (@Instant.ofCountText α _ s.toList)
  | _ => .fault .notMoment

end Montage
