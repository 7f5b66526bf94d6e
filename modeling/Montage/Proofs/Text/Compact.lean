/-
The compact text of a number.

A number is rounded to millionths, and they are written as the one compact decimal of their value, in
which no zero stands in front of other digits or last behind the point, and zero has no minus
(`PlainDecimal.IsCompact.ofMillionths_millionths`). So two numbers have one text just when they are
rounded to the same millionths. The text is what is left of the one with all six places when its last
zeros, and then its last point, are stripped (`compact_canonical`).
-/
import Mathlib.Data.List.DropRight
import Mathlib.Tactic.Ring
import Montage.Proofs.Rounding
import Montage.Proofs.Text.Decimal

namespace Montage

/-! ## Zeros -/

theorem dropZeros_eq (s : List Char) : dropZeros s = s.rdropWhile (· = '0') := rfl

theorem getLast?_dropZeros (s : List Char) : (dropZeros s).getLast? ≠ some '0' := by
  intro h
  obtain ⟨hne, hlast⟩ := List.mem_getLast?_eq_getLast h
  exact List.rdropWhile_last_not (· = '0') s hne (by simpa [dropZeros_eq] using hlast.symm)

/-- What is dropped of a text at its end are zeros. -/
theorem dropZeros_append (s : List Char) :
    dropZeros s ++ List.replicate (s.length - (dropZeros s).length) '0' = s := by
  have hsplit : s.rdropWhile (· = '0') ++ s.rtakeWhile (· = '0') = s :=
    List.rdropWhile_append_rtakeWhile
  have hzeros : s.rtakeWhile (· = '0') =
      List.replicate (s.rtakeWhile (· = '0')).length '0' :=
    List.eq_replicate_of_mem fun c hc => by simpa using List.mem_rtakeWhile_imp hc
  have hlength := congrArg List.length hsplit
  rw [List.length_append] at hlength
  rw [dropZeros_eq, ← Nat.eq_sub_of_add_eq' hlength, ← hzeros, hsplit]

theorem dropZeros_append_replicate {s : List Char} (h : s.getLast? ≠ some '0') (k : Nat) :
    dropZeros (s ++ List.replicate k '0') = s := by
  have hzeros : ∀ c ∈ List.replicate k '0', (decide (c = '0')) = true := fun c hc => by
    simp [List.eq_of_mem_replicate hc]
  have hself : s.rdropWhile (· = '0') = s := List.rdropWhile_eq_self_iff.2 fun hne hlast =>
    h (by rw [List.getLast?_eq_some_getLast hne]; simpa using hlast)
  rw [dropZeros, List.reverse_append, List.reverse_replicate, List.dropWhile_append_of_pos hzeros]
  exact hself

theorem length_padZeros {width : Nat} {s : List Char} (h : s.length ≤ width) :
    (padZeros width s).length = width := by
  simp [padZeros, h]

theorem ofDigitChars_padZeros (width : Nat) (s : List Char) :
    Nat.ofDigitChars 10 (padZeros width s) 0 = Nat.ofDigitChars 10 s 0 := by
  simp [padZeros, Nat.ofDigitChars_append]

theorem isDigit_of_mem_padZeros {width n : Nat} {c : Char} (h : c ∈ padZeros width (digits n)) : c.isDigit := by
  rcases List.mem_append.1 h with h | h
  · rw [List.eq_of_mem_replicate h]
    rfl
  · exact isDigit_of_mem_digits h

/-! ## Millionths -/

namespace Millionths

theorem length_digits_le (n : Nat) : (digits (n % 1000000)).length ≤ 6 :=
  (Nat.length_toDigits_le_iff (by decide) (by decide)).2 (Nat.mod_lt n (by decide))

theorem places_append (n : Nat) :
    places n ++ List.replicate (6 - (places n).length) '0' = padZeros 6 (digits (n % 1000000)) := by
  have happend := dropZeros_append (padZeros 6 (digits (n % 1000000)))
  rwa [length_padZeros (length_digits_le n)] at happend

theorem isDigit_of_mem_places {n : Nat} {c : Char} (h : c ∈ places n) : c.isDigit :=
  isDigit_of_mem_padZeros ((List.rdropWhile_prefix _ _).subset h)

end Millionths

namespace PlainDecimal

/-- The digits behind the point of a decimal, filled up with zeros to six. -/
def sixDigits (d : PlainDecimal) : List Char :=
  d.places ++ List.replicate (6 - d.places.length) '0'

/-- How many millionths a decimal of no more than six places is, without its sign. -/
def size (d : PlainDecimal) : Nat := Nat.ofDigitChars 10 (d.whole ++ d.sixDigits) 0

/-- How many millionths a decimal of no more than six places is. -/
def millionths (d : PlainDecimal) : Int := if d.negative then -(d.size : Int) else d.size

/-- A decimal in its shortest form, of no more than six places. -/
structure IsCompact (d : PlainDecimal) : Prop where
  places_le : d.places.length ≤ 6
  /-- No zero stands in front of other digits. -/
  whole : d.whole.head? = some '0' → d.whole = ['0']
  /-- No zero stands last behind the point. -/
  places : d.places.getLast? ≠ some '0'
  /-- Zero has no minus. -/
  sign : d.negative → d.whole = ['0'] → d.places ≠ []

/-- The decimal that millionths are written as. -/
def ofMillionths (n : Int) : PlainDecimal where
  negative := n < 0
  whole := digits (n.natAbs / 1000000)
  places := Millionths.places n.natAbs
  whole_digits _ := isDigit_of_mem_digits
  places_digits _ := Millionths.isDigit_of_mem_places
  whole_ne_nil := digits_ne_nil _

@[simp] theorem negative_ofMillionths (n : Int) : (ofMillionths n).negative = decide (n < 0) := rfl

theorem chars_ofMillionths (n : Int) : (ofMillionths n).chars = Millionths.chars n := by
  have hmagnitude : (ofMillionths n).magnitude = Millionths.magnitude n.natAbs := by
    unfold magnitude Millionths.magnitude
    cases h : Millionths.places n.natAbs <;> simp [ofMillionths, h]
  simp [chars, Millionths.chars, hmagnitude]

theorem length_places_ofMillionths (n : Int) : (ofMillionths n).places.length ≤ 6 := by
  rw [← length_padZeros (Millionths.length_digits_le n.natAbs)]
  exact (List.rdropWhile_prefix _ _).length_le

theorem sixDigits_isDigit (d : PlainDecimal) : ∀ c ∈ d.sixDigits, c.isDigit := fun c hc => by
  rcases List.mem_append.1 hc with hc | hc
  · exact d.places_digits c hc
  · rw [List.eq_of_mem_replicate hc]
    rfl

theorem size_of_zero {d : PlainDecimal} (hwhole : d.whole = ['0']) (hplaces : d.places = []) :
    d.size = 0 := by
  simp [size, sixDigits, hwhole, hplaces, Nat.ofDigitChars_cons]

section Six

variable {d : PlainDecimal} (h : d.places.length ≤ 6)
include h

theorem length_sixDigits : d.sixDigits.length = 6 := by
  simp [sixDigits, h]

theorem size_eq :
    d.size = 1000000 * Nat.ofDigitChars 10 d.whole 0 + Nat.ofDigitChars 10 d.sixDigits 0 := by
  rw [size, Nat.ofDigitChars_append, Nat.ofDigitChars_eq_ofDigitChars_zero, length_sixDigits h]

theorem size_div : d.size / 1000000 = Nat.ofDigitChars 10 d.whole 0 := by
  have hlt := ofDigitChars_lt d.sixDigits_isDigit 0
  rw [length_sixDigits h] at hlt
  rw [size_eq h]
  omega

theorem size_mod : d.size % 1000000 = Nat.ofDigitChars 10 d.sixDigits 0 := by
  have hlt := ofDigitChars_lt d.sixDigits_isDigit 0
  rw [length_sixDigits h] at hlt
  rw [size_eq h]
  omega

theorem value_eq : d.value = (d.millionths : Rat) / 1000000 := by
  have hsize : d.size = 10 ^ (6 - d.places.length) * Nat.ofDigitChars 10 (d.whole ++ d.places) 0 := by
    rw [size, sixDigits, ← List.append_assoc, Nat.ofDigitChars_append, Nat.ofDigitChars_replicate_zero]
  have hpower : (10 : Rat) ^ (6 - d.places.length) * 10 ^ d.places.length = 1000000 := by
    rw [← pow_add, Nat.sub_add_cancel h]
    norm_num
  have hmagnitude : (Nat.ofDigitChars 10 (d.whole ++ d.places) 0 : Rat) / 10 ^ d.places.length =
      d.size / 1000000 := by
    rw [div_eq_div_iff (by positivity) (by norm_num), ← hpower, hsize]
    push_cast
    ring
  rw [value, hmagnitude, millionths]
  split <;> simp [neg_div]

end Six

theorem sixDigits_ofMillionths (n : Int) :
    (ofMillionths n).sixDigits = padZeros 6 (digits (n.natAbs % 1000000)) :=
  Millionths.places_append _

theorem size_ofMillionths (n : Int) : (ofMillionths n).size = n.natAbs := by
  rw [size_eq (length_places_ofMillionths n), sixDigits_ofMillionths, ofDigitChars_padZeros]
  simp only [ofMillionths, digits, Nat.ofDigitChars_ten_toDigits]
  omega

theorem millionths_ofMillionths (n : Int) : (ofMillionths n).millionths = n := by
  rw [millionths, size_ofMillionths, negative_ofMillionths]
  by_cases hn : n < 0
  · rw [if_pos (decide_eq_true hn)]
    omega
  · rw [if_neg (mt of_decide_eq_true hn)]
    omega

theorem isCompact_ofMillionths (n : Int) : (ofMillionths n).IsCompact where
  places_le := length_places_ofMillionths n
  whole := digits_of_head?
  places := getLast?_dropZeros _
  sign hnegative hwhole hplaces := by
    have hzero := size_of_zero hwhole hplaces
    rw [size_ofMillionths] at hzero
    have := of_decide_eq_true hnegative
    omega

namespace IsCompact

variable {d : PlainDecimal} (h : d.IsCompact)
include h

theorem digits_size : digits (d.size / 1000000) = d.whole := by
  rw [size_div h.places_le]
  exact digits_ofDigitChars d.whole_digits d.whole_ne_nil h.whole

theorem places_size : Millionths.places d.size = d.places := by
  have hsix : padZeros 6 (digits (d.size % 1000000)) = d.sixDigits := by
    refine ofDigitChars_inj (fun _ => isDigit_of_mem_padZeros) d.sixDigits_isDigit ?_ ?_
    · rw [length_padZeros (Millionths.length_digits_le _), length_sixDigits h.places_le]
    · rw [ofDigitChars_padZeros, digits, Nat.ofDigitChars_ten_toDigits, size_mod h.places_le]
  rw [Millionths.places, hsix]
  exact dropZeros_append_replicate h.places _

theorem size_pos (hnegative : d.negative) : 0 < d.size := by
  by_contra hzero
  have hsize : d.size = 0 := by omega
  have hwhole := h.digits_size
  have hplaces := h.places_size
  rw [hsize] at hwhole hplaces
  exact h.sign hnegative hwhole.symm hplaces.symm

/-- Each compact decimal is what its millionths are written as. -/
theorem ofMillionths_millionths : ofMillionths d.millionths = d := by
  have hsize : d.millionths.natAbs = d.size := by
    unfold millionths
    split <;> omega
  have hnegative : decide (d.millionths < 0) = d.negative := by
    unfold millionths
    cases hsign : d.negative with
    | false => simp
    | true => simpa using h.size_pos hsign
  apply PlainDecimal.ext
  case negative => exact hnegative
  case whole => exact (congrArg (fun n => digits (n / 1000000)) hsize).trans h.digits_size
  case places => exact (congrArg Millionths.places hsize).trans h.places_size

end IsCompact

end PlainDecimal

/-! ## Reading back -/

theorem readNumber?_millionths (n : Int) :
    readNumber? (String.ofList (Millionths.chars n)) = some ((n : Rat) / 1000000) := by
  have hvalue := PlainDecimal.value_eq (PlainDecimal.length_places_ofMillionths n)
  rw [PlainDecimal.millionths_ofMillionths] at hvalue
  rw [← PlainDecimal.chars_ofMillionths, PlainDecimal.readNumber?_chars, hvalue]

theorem millionths_chars_injective : Function.Injective Millionths.chars := by
  intro m n h
  have hread := readNumber?_millionths m
  rw [h, readNumber?_millionths, Option.some.injEq, div_left_inj' (by norm_num)] at hread
  exact_mod_cast hread.symm

/-! ## Stripping -/

/-- Millionths with all six digits behind the point, after a minus or none. -/
def sixPlaceText (negative : Bool) (n : Nat) : List Char :=
  (if negative then ['-'] else []) ++
    (digits (n / 1000000) ++ '.' :: padZeros 6 (digits (n % 1000000)))

/-- A text without the zeros at its end and the points that are then at its end. What is left of
zero has no minus. -/
def stripped (s : List Char) : List Char :=
  let bare := (dropZeros s).rdropWhile (· = '.')
  if bare = [] ∨ bare = ['-', '0'] then ['0'] else bare

theorem magnitude_eq (n : Nat) : Millionths.magnitude n =
    digits (n / 1000000) ++ if Millionths.places n = [] then [] else '.' :: Millionths.places n := by
  unfold Millionths.magnitude
  cases Millionths.places n <;> simp

/-- The zeros at the end go, and those in front of the point stay. -/
theorem dropZeros_sixPlaces (front : List Char) (n : Nat) :
    dropZeros (front ++ '.' :: padZeros 6 (digits (n % 1000000))) = front ++ '.' :: Millionths.places n := by
  have hlast : (front ++ '.' :: Millionths.places n).getLast? ≠ some '0' := by
    rw [List.getLast?_append_of_ne_nil _ (List.cons_ne_nil _ _), List.getLast?_cons]
    cases h : (Millionths.places n).getLast? with
    | none => decide
    | some c => exact fun hc => getLast?_dropZeros _ (h.trans hc)
  rw [← Millionths.places_append, ← List.cons_append, ← List.append_assoc]
  exact dropZeros_append_replicate hlast _

theorem rdropWhile_digits (front : List Char) {s : List Char} (hne : s ≠ []) (h : ∀ c ∈ s, c.isDigit) :
    (front ++ s).rdropWhile (· = '.') = front ++ s := by
  refine List.rdropWhile_eq_self_iff.2 fun _ hlast => ?_
  have hdigit := h _ (List.getLast_mem hne)
  rw [List.getLast_append_of_ne_nil _ hne, decide_eq_true_eq] at hlast
  rw [hlast] at hdigit
  cases hdigit

/-- The point goes if nothing is left behind it. -/
theorem rdropWhile_sixPlaceText (negative : Bool) (n : Nat) :
    (dropZeros (sixPlaceText negative n)).rdropWhile (· = '.') =
      (if negative then ['-'] else []) ++ Millionths.magnitude n := by
  unfold sixPlaceText
  generalize (if negative then ['-'] else []) = sign
  rw [← List.append_assoc, dropZeros_sixPlaces, magnitude_eq, ← List.append_assoc]
  split
  next hplaces =>
    rw [hplaces, List.rdropWhile_concat_pos _ _ _ rfl, List.append_nil]
    exact rdropWhile_digits sign (digits_ne_nil _) fun _ => isDigit_of_mem_digits
  next hplaces =>
    rw [← List.singleton_append, ← List.append_assoc]
    exact rdropWhile_digits _ hplaces fun _ => Millionths.isDigit_of_mem_places

/-- **What is left of the text in six places is the compact one**, whether zero has a minus or not. -/
theorem stripped_sixPlaceText (negative : Bool) (n : Nat) :
    stripped (sixPlaceText negative n) = Millionths.chars (if negative then -(n : Int) else n) := by
  have hplain : Millionths.magnitude n = Millionths.chars n := by simp [Millionths.chars]
  have hhead : ∀ c ∈ (Millionths.magnitude n).head?, c.isDigit := by
    rw [magnitude_eq, List.head?_append_of_ne_nil _ (digits_ne_nil _)]
    exact fun c hc => isDigit_of_mem_digits (List.mem_of_mem_head? hc)
  unfold stripped
  rw [rdropWhile_sixPlaceText]
  cases negative with
  | false =>
    have hkept : ¬(Millionths.magnitude n = [] ∨ Millionths.magnitude n = ['-', '0']) := by
      rintro (hnil | hminus)
      · rw [magnitude_eq, List.append_eq_nil_iff] at hnil
        exact digits_ne_nil _ hnil.1
      · rw [hminus] at hhead
        cases hhead '-' rfl
    exact (if_neg hkept).trans hplain
  | true =>
    by_cases hn : n = 0
    · rw [hn]
      rfl
    · have hnonzero : Millionths.magnitude n ≠ ['0'] := fun hzero => by
        have hchars : Millionths.chars n = Millionths.chars 0 := hplain.symm.trans hzero
        exact hn (by exact_mod_cast millionths_chars_injective hchars)
      have hchars : Millionths.chars (-(n : Int)) = '-' :: Millionths.magnitude n := by
        rw [Millionths.chars, if_pos (by omega), Int.natAbs_neg, Int.natAbs_natCast]
      simp [hnonzero, hchars]

/-! ## The text of a number -/

variable {α : Type} [Scalar α] {x : α} {q : Rat}

theorem compact_of_finite (hx : Scalar.exact x = .finite q) :
    compact x = String.ofList (Millionths.chars (sixPlaces q)) := by
  rw [compact, hx]
  rfl

/-- What is left of the text in six places of a number, its sign in front, is its compact text. -/
theorem compact_eq_stripped (hx : Scalar.exact x = .finite q) :
    compact x = String.ofList (stripped (sixPlaceText (q < 0) (sixPlaces q).natAbs)) := by
  have hsign : (if q < 0 then -((sixPlaces q).natAbs : Int) else (sixPlaces q).natAbs) = sixPlaces q := by
    split
    next hq =>
      have hle : sixPlaces q ≤ 0 := halfEven_le (by push_cast; linarith)
      omega
    next hq =>
      have hge : 0 ≤ sixPlaces q := (le_halfEven_iff (by norm_num) _).2 (by push_cast; linarith)
      omega
  rw [compact_of_finite hx, stripped_sixPlaceText]
  simp only [decide_eq_true_eq, hsign]

/-- **The compact text of a number is the one compact decimal of its value in six places.** It is what
is left of the text in six places, it reads as that value, and no two values have one text. -/
theorem compact_canonical (hx : Scalar.exact x = .finite q) :
    (∀ n, RoundsHalfEven (q * 1000000) n ↔ n = sixPlaces q) ∧
    compact x = String.ofList (stripped (sixPlaceText (q < 0) (sixPlaces q).natAbs)) ∧
    readNumber? (compact x) = some ((sixPlaces q : Rat) / 1000000) ∧
    (∃ d : PlainDecimal, d.IsCompact ∧ d.value = (sixPlaces q : Rat) / 1000000 ∧
      compact x = String.ofList d.chars ∧
      ∀ e : PlainDecimal, e.IsCompact → e.value = (sixPlaces q : Rat) / 1000000 → e = d) ∧
    ∀ (y : α) (r : Rat), Scalar.exact y = .finite r → (compact x = compact y ↔ sixPlaces q = sixPlaces r) := by
  refine ⟨fun n => roundsHalfEven_iff, compact_eq_stripped hx, ?_, ⟨.ofMillionths (sixPlaces q),
    PlainDecimal.isCompact_ofMillionths _, ?_, ?_, fun e he hvalue => ?_⟩, fun y r hy => ?_⟩
  · rw [compact_of_finite hx, readNumber?_millionths]
  · rw [PlainDecimal.value_eq (PlainDecimal.length_places_ofMillionths _),
      PlainDecimal.millionths_ofMillionths]
  · rw [compact_of_finite hx, PlainDecimal.chars_ofMillionths]
  · rw [PlainDecimal.value_eq he.places_le, div_left_inj' (by norm_num)] at hvalue
    rw [← he.ofMillionths_millionths, show e.millionths = sixPlaces q by exact_mod_cast hvalue]
  · rw [compact_of_finite hx, compact_of_finite hy, String.ofList_inj, millionths_chars_injective.eq_iff]

/-- Half a millionth goes to the even one, and a little more to the next. -/
theorem halfway_canonical :
    let half : Float := 0.0078125
    let more : Float := 0.0078125 + 1.0 / 1073741824.0
    Scalar.exact half = .finite (1 / 128) ∧
      Scalar.exact more = .finite (1 / 128 + 1 / 1073741824) ∧
      compact half = "0.007812" ∧ compact more = "0.007813" ∧
      sixPlaceText false 7812 = "0.007812".toList ∧
      compact half = String.ofList (stripped (sixPlaceText false 7812)) ∧
      readNumber? (compact half) = some (1953 / 250000 : Rat) ∧
      (compact half = compact more ↔ sixPlaces (1 / 128) = sixPlaces (1 / 128 + 1 / 1073741824)) := by
  intro half more
  have hhalf : Scalar.exact half = .finite (1 / 128) := by decide +kernel
  have hmore : Scalar.exact more = .finite (1 / 128 + 1 / 1073741824) := by decide +kernel
  obtain ⟨-, hstripped, hread, -, htext⟩ := compact_canonical hhalf
  have hplaces : sixPlaces (1 / 128) = 7812 := by decide +kernel
  have hvalue : ((sixPlaces (1 / 128) : Int) : Rat) / 1000000 = 1953 / 250000 := by
    rw [hplaces]
    norm_num
  have hplus : decide ((1 / 128 : Rat) < 0) = false := by norm_num
  rw [hplaces, hplus] at hstripped
  exact ⟨hhalf, hmore, by decide +kernel, by decide +kernel, by decide +kernel, hstripped, hvalue ▸ hread,
    htext more _ hmore⟩

end Montage
