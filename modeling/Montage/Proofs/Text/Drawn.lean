/-
How the engine reads a text that it draws.

An argument is read twice, and each reading takes quotes and backslashes away (`scan`): first as
part of the graph (`unquoted`), then as an option, which ends at a bare colon (`options`). What is
left is expanded (`expand`). A text comes back from its escaped form between quotes just when there
is no quote in it (`DrawText.drawn_iff`): what is between quotes is kept as it is, so that the
backslash in front of a quote does not keep that from ending them. All characters are escaped at
once, which comes to the same as replacing one after the other, the backslash first
(`toList_escape_eq_foldl`).
-/
import Mathlib.Tactic.Common
import Montage.Export.Filter

namespace Montage

/-! ## Reading -/

/-- A character that is read. It is bare if it was neither between quotes nor after a backslash. -/
structure Glyph where
  char : Char
  bare : Bool
deriving DecidableEq

/-- What is read of some characters. Between quotes everything is kept up to the next quote;
outside of them a backslash is dropped, and what it stands in front of is kept. -/
def scan : Bool → List Char → List Glyph
  | _, [] => []
  | quoted, '\'' :: cs => scan (!quoted) cs
  | false, '\\' :: c :: cs => ⟨c, false⟩ :: scan false cs
  | quoted, c :: cs => ⟨c, !quoted⟩ :: scan quoted cs

/-- What the graph makes of an argument. -/
def unquoted (cs : List Char) : List Char := (scan false cs).map (·.char)

/-- The options of an argument, once the graph has read it. -/
def options (cs : List Char) : List (List Char) :=
  ((scan false cs).splitOnP fun g => g.bare && g.char == ':').map fun gs => gs.map (·.char)

/-- The text that is drawn for an option; none if there is something to compute in it. -/
def expand : List Char → Option (List Char)
  | [] => some []
  | '\\' :: c :: cs => (expand cs).map (c :: ·)
  | '%' :: _ => none
  | c :: cs => (expand cs).map (c :: ·)

/-- The text that is drawn for an argument; none if it is not one plain text. -/
def drawnText (argument : String) : Option String :=
  match options (unquoted argument.toList) with
  | [value] => (expand value).map String.ofList
  | _ => none

/-- A text as an argument: its escaped form between quotes. -/
def quotedText (text : String) : String := "'" ++ escape text ++ "'"

/-- What is between quotes, the opening one of which has been read. -/
def quotedSpan (cs : List Char) : List Char := cs.takeWhile (· != '\'')

/-! ## Nothing is read that is not there -/

theorem scan_sublist (quoted : Bool) (cs : List Char) :
    ((scan quoted cs).map (·.char)).Sublist cs := by
  fun_induction scan quoted cs with
  | case1 => exact .refl _
  | case2 quoted cs ih => exact ih.cons _
  | case3 c cs ih => exact (ih.cons_cons c).cons _
  | case4 quoted c cs _ _ ih => exact ih.cons_cons c

theorem expand_sublist {cs ds : List Char} (h : expand cs = some ds) : ds.Sublist cs := by
  fun_induction expand cs generalizing ds with
  | case1 =>
    cases h
    exact .refl _
  | case2 c cs ih =>
    obtain ⟨es, hes, rfl⟩ := Option.map_eq_some_iff.1 h
    exact ((ih hes).cons_cons c).cons _
  | case3 => cases h
  | case4 c cs _ _ ih =>
    obtain ⟨es, hes, rfl⟩ := Option.map_eq_some_iff.1 h
    exact (ih hes).cons_cons c

/-! ## Quotes -/

/-- What is between quotes is kept up to the first quote in it. -/
theorem scan_span {span : List Char} (h : '\'' ∉ span) (rest : List Char) :
    (scan true (span ++ '\'' :: rest)).map (·.char) = span ++ unquoted rest := by
  induction span with
  | nil => simp [scan, unquoted]
  | cons c span ih =>
    rw [List.mem_cons, not_or] at h
    have hc : scan true (c :: (span ++ '\'' :: rest)) = ⟨c, false⟩ :: scan true (span ++ '\'' :: rest) := by
      simp [scan, Ne.symm h.1]
    rw [List.cons_append, hc, List.map_cons, ih h.2, List.cons_append]

theorem takeWhile_span {span : List Char} (h : '\'' ∉ span) (rest : List Char) :
    quotedSpan (span ++ '\'' :: rest) = span := by
  have hall : ∀ c ∈ span, (c != '\'') = true := fun c hc => by
    simpa using fun he : c = '\'' => h (he ▸ hc)
  rw [quotedSpan, List.takeWhile_append_of_pos hall]
  simp

/-! ## The escaped form of one character -/

/-- What an option keeps of what stands for one character. -/
def optionChar (c : Char) : List Char := (scan false (escapeChar c)).map (·.char)

theorem scan_escapeChar (c : Char) (rest : List Char) :
    scan false (escapeChar c ++ rest) = scan false (escapeChar c) ++ scan false rest := by
  unfold escapeChar
  split <;> simp_all [scan]

/-- A colon is escaped. -/
theorem not_colon_of_mem_scan {c : Char} {g : Glyph} (h : g ∈ scan false (escapeChar c)) :
    (g.bare && g.char == ':') = false := by
  unfold escapeChar at h
  split at h <;> simp_all [scan]
  -- a percent sign is left bare
  rcases h with rfl | rfl <;> decide

theorem expand_optionChar (c : Char) (rest : List Char) :
    expand (optionChar c ++ rest) = (expand rest).map (c :: ·) := by
  unfold optionChar escapeChar
  split <;> simp_all [scan, expand]

theorem count_escapeChar (c : Char) : (escapeChar c).count '\'' = [c].count '\'' := by
  unfold escapeChar
  split <;> simp

theorem count_optionChar (c : Char) : (optionChar c).count '\'' = [c].count '\'' := by
  unfold optionChar escapeChar
  split <;> simp_all [scan]

/-! ## The escaped form of a text -/

variable {text : List Char}

theorem quote_mem_escaped_iff : '\'' ∈ text.flatMap escapeChar ↔ '\'' ∈ text := by
  rw [List.mem_flatMap]
  constructor
  · rintro ⟨c, hc, hq⟩
    have hcount : 0 < [c].count '\'' := count_escapeChar c ▸ List.count_pos_iff.2 hq
    exact List.mem_singleton.1 (List.count_pos_iff.1 hcount) ▸ hc
  · exact fun h => ⟨'\'', h, by simp [escapeChar]⟩

theorem scan_escaped (text rest : List Char) :
    scan false (text.flatMap escapeChar ++ rest) =
      (text.flatMap fun c => scan false (escapeChar c)) ++ scan false rest := by
  induction text with
  | nil => rfl
  | cons c text ih =>
    rw [List.flatMap_cons, List.append_assoc, scan_escapeChar, ih, List.flatMap_cons,
      List.append_assoc]

theorem unquoted_escaped (text rest : List Char) :
    unquoted (text.flatMap escapeChar ++ rest) = text.flatMap optionChar ++ unquoted rest := by
  rw [unquoted, scan_escaped, List.map_append, List.map_flatMap]
  rfl

/-- The escaped form is one option. -/
theorem options_escaped (text : List Char) :
    options (text.flatMap escapeChar) = [text.flatMap optionChar] := by
  have hscan := scan_escaped text []
  rw [List.append_nil] at hscan
  have hnone : ∀ g ∈ text.flatMap fun c => scan false (escapeChar c),
      (g.bare && g.char == ':') = false := fun g hg => by
    obtain ⟨c, -, hg⟩ := List.mem_flatMap.1 hg
    exact not_colon_of_mem_scan hg
  rw [options, hscan, show scan false [] = [] from rfl, List.append_nil,
    List.splitOnP_eq_singleton hnone, List.map_singleton, List.map_flatMap]
  rfl

theorem expand_escaped (text : List Char) : expand (text.flatMap optionChar) = some text := by
  induction text with
  | nil => rfl
  | cons c text ih => rw [List.flatMap_cons, expand_optionChar, ih, Option.map_some]

theorem count_escaped (text : List Char) :
    (text.flatMap optionChar).count '\'' = text.count '\'' := by
  induction text with
  | nil => rfl
  | cons c text ih =>
    rw [List.flatMap_cons, List.count_append, ih, count_optionChar, ← List.count_append,
      List.singleton_append]

theorem toList_escape (text : String) : (escape text).toList = text.toList.flatMap escapeChar := by
  simp [escape]

/-! ## One replacement after the other -/

/-- The characters that are escaped, in the order in which they are replaced, and what stands for
each. -/
def escapes : List (Char × List Char) := [
  ('\\', ['\\', '\\', '\\', '\\']), ('\'', ['\\', '\'']), (':', ['\\', ':']),
  ('[', ['\\', '[']), (']', ['\\', ']']), ('%', ['\\', '\\', '%'])]

/-- A text in which something stands for each of one character. -/
def replaced (text : List Char) (e : Char × List Char) : List Char :=
  text.flatMap fun c => if c = e.1 then e.2 else [c]

theorem foldl_replaced_append (es : List (Char × List Char)) (xs ys : List Char) :
    es.foldl replaced (xs ++ ys) = es.foldl replaced xs ++ es.foldl replaced ys := by
  induction es generalizing xs ys with
  | nil => rfl
  | cons e es ih =>
    have hsplit : replaced (xs ++ ys) e = replaced xs e ++ replaced ys e := List.flatMap_append
    rw [List.foldl_cons, hsplit, ih, List.foldl_cons, List.foldl_cons]

/-- No backslash that is put in is replaced, since those that were there are replaced first. -/
theorem foldl_replaced_singleton (c : Char) : escapes.foldl replaced [c] = escapeChar c := by
  unfold escapeChar
  split
  case h_7 => simp_all [escapes, replaced]
  all_goals rfl

theorem toList_escape_eq_foldl (text : String) :
    (escape text).toList = escapes.foldl replaced text.toList := by
  rw [toList_escape]
  induction text.toList with
  | nil => rfl
  | cons c cs ih =>
    rw [List.flatMap_cons, ih, ← foldl_replaced_singleton, ← foldl_replaced_append,
      List.singleton_append]

/-! ## Texts between quotes -/

/-- What is not split is all there is. -/
theorem eq_of_splitOnP_eq_singleton {p : Glyph → Bool} {gs hs : List Glyph}
    (h : gs.splitOnP p = [hs]) : hs = gs := by
  induction gs generalizing hs with
  | nil => simpa using h.symm
  | cons g gs ih =>
    rw [List.splitOnP_cons_eq_if_modifyHead] at h
    split at h
    · exact absurd (List.cons.inj h).2 (List.splitOnP_ne_nil p gs)
    · cases hrest : gs.splitOnP p with
      | nil => exact absurd hrest (List.splitOnP_ne_nil p gs)
      | cons first others =>
        rw [hrest, List.modifyHead_cons] at h
        obtain ⟨rfl, rfl⟩ := List.cons.inj h
        rw [ih hrest]

/-- No more quotes are drawn than the graph leaves in an argument. -/
theorem count_le_of_drawnText {argument drawn : String} (h : drawnText argument = some drawn) :
    drawn.toList.count '\'' ≤ (unquoted argument.toList).count '\'' := by
  unfold drawnText at h
  split at h
  next value hvalue =>
    obtain ⟨ds, hds, rfl⟩ := Option.map_eq_some_iff.1 h
    rw [String.toList_ofList]
    obtain ⟨gs, hgs, rfl⟩ := List.map_eq_singleton_iff.1 hvalue
    rw [eq_of_splitOnP_eq_singleton hgs] at hds
    exact ((expand_sublist hds).trans (scan_sublist false _)).count_le _
  · cases h

theorem toList_quotedText (text : String) :
    (quotedText text).toList = '\'' :: (text.toList.flatMap escapeChar ++ ['\'']) := by
  simp [quotedText, escape]

/-- The first quote in a text ends the quotes around its escaped form: what is left of it is the
backslash that was put in front of it. -/
theorem escaped_eq_span_append (before after : List Char) :
    (before ++ '\'' :: after).flatMap escapeChar =
      (before.flatMap escapeChar ++ ['\\']) ++ '\'' :: after.flatMap escapeChar := by
  simp [escapeChar]

theorem quote_not_mem_span {before : List Char} (h : '\'' ∉ before) :
    '\'' ∉ before.flatMap escapeChar ++ ['\\'] := by
  rw [List.mem_append, quote_mem_escaped_iff]
  simpa using h

theorem unquoted_quotedText {text : String} (h : '\'' ∉ text.toList) :
    unquoted (quotedText text).toList = text.toList.flatMap escapeChar := by
  have hquote := mt quote_mem_escaped_iff.1 h
  rw [toList_quotedText, unquoted, scan, Bool.not_false, scan_span hquote]
  simp [unquoted, scan]

/-- The quotes after the first one are left, and the first one is not. -/
theorem count_unquoted_quotedText {text : String} (h : '\'' ∈ text.toList) :
    (unquoted (quotedText text).toList).count '\'' < text.toList.count '\'' := by
  obtain ⟨before, after, htext, hbefore⟩ := List.eq_append_cons_of_mem h
  have hspan := quote_not_mem_span hbefore
  have hread : unquoted (quotedText text).toList =
      (before.flatMap escapeChar ++ ['\\']) ++ after.flatMap optionChar := by
    rw [toList_quotedText, htext, escaped_eq_span_append, List.append_assoc, List.cons_append,
      unquoted, scan, Bool.not_false, scan_span hspan, unquoted_escaped]
    simp [unquoted, scan]
  rw [hread, List.count_append, List.count_eq_zero_of_not_mem hspan, count_escaped, htext,
    List.count_append, List.count_cons_self]
  omega

theorem drawnText_quotedText {text : String} (h : '\'' ∉ text.toList) :
    drawnText (quotedText text) = some text := by
  rw [drawnText, unquoted_quotedText h, options_escaped]
  simp [expand_escaped]

theorem quotedSpan_escape {text : String} (h : '\'' ∉ text.toList) (rest : List Char) :
    quotedSpan ((escape text).toList ++ '\'' :: rest) = (escape text).toList := by
  rw [toList_escape]
  exact takeWhile_span (mt quote_mem_escaped_iff.1 h) rest

/-- The quotes end where they were put just when there is no quote in the text. -/
theorem quotedSpan_escape_iff (text : String) (rest : List Char) :
    quotedSpan ((escape text).toList ++ '\'' :: rest) = (escape text).toList ↔
      '\'' ∉ text.toList := by
  refine ⟨fun h hquote => ?_, fun h => quotedSpan_escape h rest⟩
  have hall : (quotedSpan ((escape text).toList ++ '\'' :: rest)).all (· != '\'') :=
    List.all_takeWhile
  rw [h, toList_escape, List.all_eq_true] at hall
  simpa using hall '\'' (quote_mem_escaped_iff.2 hquote)

theorem drawnText_quotedText_iff (text : String) :
    drawnText (quotedText text) = some text ↔ '\'' ∉ text.toList := by
  refine ⟨fun h hquote => ?_, drawnText_quotedText⟩
  exact absurd (count_le_of_drawnText h) (Nat.not_le.2 (count_unquoted_quotedText hquote))

/-- **A text is put between quotes. It is drawn as it is, and its quotes end where they were put, just
when there is no quote in it.** A quote in it ends the quotes, since the backslash in front of it is
kept as everything else between them, and is not drawn itself. -/
theorem DrawText.drawn_iff {α : Type} [Scalar α] (d : DrawText α) :
    "text=" ++ quotedText d.text ∈ d.parts ∧
      (drawnText (quotedText d.text) = some d.text ↔ '\'' ∉ d.text.toList) ∧
      ∀ rest, quotedSpan ((escape d.text).toList ++ '\'' :: rest) = (escape d.text).toList ↔
        '\'' ∉ d.text.toList := by
  have htext : "text=" ++ quotedText d.text = "text='" ++ escape d.text ++ "'" := by
    rw [quotedText, ← String.append_assoc, ← String.append_assoc]
    rfl
  refine ⟨?_, drawnText_quotedText_iff d.text, quotedSpan_escape_iff d.text⟩
  simp [parts, htext]

/-- The quote is lost from this text, and the letter after it is read outside of the quotes. -/
theorem drawnText_its :
    drawnText (quotedText "it's") = some "its" ∧
      quotedSpan ((escape "it's").toList ++ ['\'']) = ['i', 't', '\\'] := by
  decide +kernel

/-- With its quote outside of the quotes, the text is drawn as it is. -/
example : drawnText "'it'\\\\\\''s'" = some "it's" := by decide +kernel

end Montage
