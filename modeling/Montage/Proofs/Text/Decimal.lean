/-
Digits and decimals, and what is read of them.

Digits without a zero in front of others are those of the number that they write
(`digits_ofDigitChars`). A decimal is digits, after a minus or none, and a point with digits after it or
none. It reads as the number that its digits write (`PlainDecimal.readNumber?_chars`).
-/
import Mathlib.Algebra.Order.Ring.Rat
import Mathlib.Data.List.Basic
import Mathlib.Tactic.Common
import Montage.Number.Numeral
import Montage.Number.Places

namespace Montage

/-! ## Digits -/

theorem toNat_of_isDigit {c : Char} (h : c.isDigit) : 48 ≤ c.toNat ∧ c.toNat ≤ 57 :=
  Char.isDigit_iff_toNat.1 h

theorem digit_lt_ten {c : Char} (h : c.isDigit) : c.toNat - '0'.toNat < 10 := by
  have hrange := toNat_of_isDigit h
  show c.toNat - 48 < 10
  omega

theorem toDigits_digit {c : Char} (h : c.isDigit) : Nat.toDigits 10 (c.toNat - '0'.toNat) = [c] := by
  have hrange := toNat_of_isDigit h
  rw [Nat.toDigits_of_lt_base (digit_lt_ten h), List.singleton_inj, ← Char.toNat_inj,
    Nat.toNat_digitChar_of_lt_ten (digit_lt_ten h)]
  show 48 + (c.toNat - 48) = c.toNat
  omega

/-- Digits behind those of a positive number are with them the digits of what they write together. -/
theorem toDigits_ofDigitChars {s : List Char} (h : ∀ c ∈ s, c.isDigit) {m : Nat} (hm : 0 < m) :
    Nat.toDigits 10 (Nat.ofDigitChars 10 s m) = Nat.toDigits 10 m ++ s := by
  induction s generalizing m with
  | nil => simp
  | cons c s ih =>
    have hc : c.isDigit := h c List.mem_cons_self
    rw [Nat.ofDigitChars_cons, ih (fun d hd => h d (List.mem_cons_of_mem c hd)) (by omega),
      ← Nat.toDigits_append_toDigits (by decide) hm (digit_lt_ten hc), toDigits_digit hc,
      List.append_assoc]
    rfl

theorem ofDigitChars_inj {s t : List Char} (hs : ∀ c ∈ s, c.isDigit) (ht : ∀ c ∈ t, c.isDigit)
    (hlength : s.length = t.length) (h : Nat.ofDigitChars 10 s 0 = Nat.ofDigitChars 10 t 0) : s = t := by
  -- With a one in front the zeros at the start of both count.
  have hone : Nat.ofDigitChars 10 s 1 = Nat.ofDigitChars 10 t 1 := by
    rw [Nat.ofDigitChars_eq_ofDigitChars_zero, hlength, h, ← Nat.ofDigitChars_eq_ofDigitChars_zero]
  have hdigits := toDigits_ofDigitChars hs Nat.one_pos
  rw [hone, toDigits_ofDigitChars ht Nat.one_pos] at hdigits
  exact (List.append_cancel_left hdigits).symm

theorem ofDigitChars_lt {s : List Char} (h : ∀ c ∈ s, c.isDigit) (m : Nat) :
    Nat.ofDigitChars 10 s m < 10 ^ s.length * (m + 1) := by
  induction s generalizing m with
  | nil => simp
  | cons c s ih =>
    have hlt := digit_lt_ten (h c List.mem_cons_self)
    rw [Nat.ofDigitChars_cons, List.length_cons, Nat.pow_succ, Nat.mul_assoc]
    refine (ih (fun d hd => h d (List.mem_cons_of_mem c hd)) _).trans_le (Nat.mul_le_mul_left _ ?_)
    omega

theorem digits_ne_nil (n : Nat) : digits n ≠ [] := Nat.toDigits_ne_nil

theorem isDigit_of_mem_digits {n : Nat} {c : Char} (h : c ∈ digits n) : c.isDigit :=
  Nat.isDigit_of_mem_toDigits (by decide) (by decide) h

/-- No number is written with a zero in front of other digits. -/
theorem digits_of_head? {n : Nat} (h : (digits n).head? = some '0') : digits n = ['0'] := by
  unfold digits at *
  induction n using Nat.strongRecOn with
  | ind n ih =>
    rw [Nat.toDigits_eq_if (by decide)] at h ⊢
    split at h
    next hn =>
      rw [if_pos hn]
      simpa using h
    next hn =>
      rw [List.head?_append_of_ne_nil _ Nat.toDigits_ne_nil] at h
      -- The number less its last digit would be zero, but it is at least ten.
      have hzero := ih (n / 10) (by omega) h
      have hread : Nat.ofDigitChars 10 (Nat.toDigits 10 (n / 10)) 0 = n / 10 := Nat.ofDigitChars_ten_toDigits
      rw [hzero] at hread
      simp [Nat.ofDigitChars_cons] at hread
      omega

/-- Digits without a zero in front of others are those of the number that they write. -/
theorem digits_ofDigitChars {s : List Char} (h : ∀ c ∈ s, c.isDigit) (hne : s ≠ [])
    (hzero : s.head? = some '0' → s = ['0']) : digits (Nat.ofDigitChars 10 s 0) = s := by
  obtain ⟨c, s, rfl⟩ := List.exists_cons_of_ne_nil hne
  by_cases hc : c = '0'
  · rw [hzero (by rw [hc]; rfl)]
    rfl
  · have hdigit := h c List.mem_cons_self
    have hrange := toNat_of_isDigit hdigit
    have hpos : 0 < c.toNat - '0'.toNat := by
      have hzero' : c.toNat ≠ 48 := fun heq => hc (Char.toNat_inj.1 heq)
      show 0 < c.toNat - 48
      omega
    rw [digits, Nat.ofDigitChars_cons, Nat.mul_zero, Nat.zero_add,
      toDigits_ofDigitChars (fun d hd => h d (List.mem_cons_of_mem c hd)) hpos, toDigits_digit hdigit]
    rfl

/-! ## Reading digits -/

theorem asciiDigit?_of_isDigit {c : Char} (h : c.isDigit) : asciiDigit? c = some (c.toNat - '0'.toNat) :=
  if_pos (Char.isDigit_iff_toNat.1 h)

theorem natOfChars_eq {s : List Char} (h : ∀ c ∈ s, c.isDigit) : natOfChars s = Nat.ofDigitChars 10 s 0 := by
  have hread : s.filterMap asciiDigit? = s.map fun c => c.toNat - '0'.toNat := by
    rw [← List.filterMap_eq_map]
    exact List.filterMap_congr fun c hc => asciiDigit?_of_isDigit (h c hc)
  rw [natOfChars, natOfDigits, hread, List.foldl_map, Nat.ofDigitChars_eq_foldl]
  simp only [Nat.mul_comm]

theorem spanDigits_append {s rest : List Char} (h : ∀ c ∈ s, c.isDigit)
    (hrest : ∀ c ∈ rest.head?, asciiDigit? c = none) : spanDigits (s ++ rest) = (s, rest) := by
  have hs : ∀ c ∈ s, (asciiDigit? c).isSome := fun c hc => by
    rw [asciiDigit?_of_isDigit (h c hc)]
    rfl
  rw [spanDigits, List.takeWhile_append_of_pos hs, List.dropWhile_append_of_pos hs]
  cases rest with
  | nil => simp
  | cons c rest =>
    have hc : asciiDigit? c = none := hrest c rfl
    simp [hc]

theorem not_isSpace_of_isDigit {c : Char} (h : c.isDigit) : isSpace c = false := by
  have hrange := toNat_of_isDigit h
  simp [isSpace]
  omega

theorem trim_eq_self {s : List Char} (h : ∀ c ∈ s, isSpace c = false) : trim s = s := by
  have hdrop {cs : List Char} (hcs : ∀ c ∈ cs, isSpace c = false) : cs.dropWhile isSpace = cs := by
    cases cs with
    | nil => rfl
    | cons c cs => rw [List.dropWhile_cons_of_neg (by simp [hcs c])]
  rw [trim, stripBy, hdrop h, hdrop fun c hc => h c (List.mem_reverse.1 hc), List.reverse_reverse]

theorem decimalValue_neg (digits places : Nat) :
    decimalValue digits (0 - (places : Int)) = digits / 10 ^ places := by
  unfold decimalValue
  split
  next h =>
    obtain rfl : places = 0 := by omega
    simp
  next h =>
    rw [Rat.mkRat_eq_div]
    simp

/-! ## Decimals -/

/-- A decimal text: digits, after a minus or none, and digits after a point or none. -/
@[ext]
structure PlainDecimal where
  negative : Bool
  whole : List Char
  places : List Char
  whole_digits : ∀ c ∈ whole, c.isDigit
  places_digits : ∀ c ∈ places, c.isDigit
  whole_ne_nil : whole ≠ []

namespace PlainDecimal

/-- The digits with a point where places follow. -/
def magnitude (d : PlainDecimal) : List Char :=
  d.whole ++ if d.places.isEmpty then [] else '.' :: d.places

def chars (d : PlainDecimal) : List Char := if d.negative then '-' :: d.magnitude else d.magnitude

/-- The number that the digits of a decimal write. -/
def value (d : PlainDecimal) : Rat :=
  let magnitude : Rat := Nat.ofDigitChars 10 (d.whole ++ d.places) 0 / 10 ^ d.places.length
  if d.negative then -magnitude else magnitude

theorem spanDigits_magnitude (d : PlainDecimal) :
    spanDigits d.magnitude = (d.whole, if d.places.isEmpty then [] else '.' :: d.places) := by
  refine spanDigits_append d.whole_digits fun c hc => ?_
  split at hc
  · cases hc
  · cases hc
    rfl

theorem spanSign_chars (d : PlainDecimal) : spanSign d.chars = (d.negative, d.magnitude) := by
  unfold chars
  cases d.negative with
  | true => rfl
  | false =>
    obtain ⟨c, cs, hc⟩ := List.exists_cons_of_ne_nil d.whole_ne_nil
    have hdigit : c.isDigit := d.whole_digits c (hc ▸ List.mem_cons_self)
    rw [magnitude, hc]
    -- A sign is no digit.
    unfold spanSign
    split <;> simp_all

theorem read?_chars (d : PlainDecimal) :
    Numeral.read? d.chars =
      some ⟨d.negative, natOfChars (d.whole ++ d.places), 0 - (d.places.length : Int)⟩ := by
  have hwhole : d.whole.isEmpty = false := by simpa using d.whole_ne_nil
  have hplaces : spanDigits (d.places ++ []) = (d.places, []) :=
    spanDigits_append d.places_digits (by simp)
  rw [List.append_nil] at hplaces
  rw [Numeral.read?, spanSign_chars]
  dsimp only
  rw [spanDigits_magnitude]
  cases h : d.places with
  | nil => simp [hwhole, Numeral.power?]
  | cons c cs =>
    rw [h] at hplaces
    simp [hwhole, hplaces, Numeral.power?]

theorem not_isSpace_of_mem_chars (d : PlainDecimal) {c : Char} (h : c ∈ d.chars) : isSpace c = false := by
  have hmagnitude : c = '-' ∨ c ∈ d.magnitude := by
    unfold chars at h
    split at h
    · exact List.mem_cons.1 h
    · exact .inr h
  rcases hmagnitude with rfl | h
  · rfl
  rcases List.mem_append.1 h with h | h
  · exact not_isSpace_of_isDigit (d.whole_digits c h)
  · split at h
    · cases h
    rcases List.mem_cons.1 h with rfl | h
    · rfl
    · exact not_isSpace_of_isDigit (d.places_digits c h)

/-- **A plain decimal reads as the number that its digits write.** -/
theorem readNumber?_chars (d : PlainDecimal) :
    readNumber? (String.ofList d.chars) = some d.value := by
  have hdigits : ∀ c ∈ d.whole ++ d.places, c.isDigit := fun c hc =>
    (List.mem_append.1 hc).elim (d.whole_digits c) (d.places_digits c)
  rw [readNumber?, String.toList_ofList, trim_eq_self fun c => d.not_isSpace_of_mem_chars, plainNumber?,
    read?_chars]
  simp only [Numeral.value, natOfChars_eq hdigits, value, ← decimalValue_neg]
  rfl

end PlainDecimal

end Montage
