/-
What becomes of things that are pushed apart, however short they are, in exact
arithmetic.

`resolve_in_order`: the things come back in the order of their starts, those of
one start in their given order, each where it was or further right and otherwise
as it was. None starts before the end of any thing before it, less the tolerance,
and things of which each clears the one before it stay where they are.

To push them apart again changes something only where a thing shorter than the
tolerance has been pushed past the start of the next one (`resolve_resolve_iff`).
-/
import Mathlib
import Montage.Proofs.Spacing

namespace Montage

variable {β ι : Type} [Timed β Rat ι]

/-- Of two things the second starts no earlier than the end of the first, less
the tolerance. -/
def Clears (a b : β) : Prop :=
  Timed.start a + Timed.length a - overlapTolerance ≤ Timed.start b

/-- The second of two things is the first, at its start or at a later one. -/
def MovedRight (b x : β) : Prop :=
  Timed.start b ≤ Timed.start x ∧ x = Timed.startingAt b (Timed.start x)

instance (a b : β) : Decidable (Clears a b) := inferInstanceAs (Decidable (_ ≤ _))

/-- Things of one start keep their order. -/
theorem filter_start_sortByStart (items : List β) (s : Rat) :
    (sortByStart items).filter (fun b => decide (Timed.start b = s)) =
      items.filter fun b => decide (Timed.start b = s) := by
  refine filter_sortByStart (List.pairwise_of_forall_mem_list fun a ha b hb => ?_)
  have hstart : Timed.start a = s := by simpa using (List.mem_filter.1 ha).2
  have hlater : Timed.start b = s := by simpa using (List.mem_filter.1 hb).2
  exact (hstart.trans hlater.symm).le

/-- What clears the thing before it is kept, and its end is the next one's bound. -/
theorem pushRight_of_isChain :
    ∀ {items : List β} {previous : Rat},
      (∀ b ∈ items.head?, previous - overlapTolerance ≤ Timed.start b) →
      items.IsChain Clears → pushRight previous items = items
  | [], _, _, _ => rfl
  | b :: items, previous, hhead, hchain => by
    have hkeep : ¬ Timed.start b < previous - overlapTolerance := not_lt.2 (hhead b rfl)
    obtain ⟨hnext, hrest⟩ := List.isChain_cons.1 hchain
    simp only [pushRight, if_neg hkeep]
    rw [pushRight_of_isChain hnext hrest]

variable [LawfulTimed β Rat ι]

theorem movedRight_pushRight :
    ∀ (previous : Rat) (items : List β), List.Forall₂ MovedRight items (pushRight previous items)
  | _, [] => List.Forall₂.nil
  | previous, b :: items => by
    obtain ⟨s, -, hle, -, hs⟩ := pushRight_cons previous b items
    rw [hs]
    refine List.Forall₂.cons ⟨?_, ?_⟩ (movedRight_pushRight _ items)
    · rwa [LawfulTimed.start_startingAt]
    · rw [LawfulTimed.start_startingAt]

/-- **What becomes of things that are pushed apart.** They come back in the order of their starts, those
of one start in their given order; each is as it was but for its start, which is no earlier. Things of
which each clears the one before it are not moved, and in the end every one clears all before it. -/
theorem resolve_in_order {items : List β} (hstart : ∀ b ∈ items, 0 ≤ Timed.start b)
    (hlength : ∀ b ∈ items, 0 ≤ Timed.length b) :
    ∃ ordered : List β, ordered.Perm items ∧
      ordered.Pairwise (fun a b => Timed.start a ≤ Timed.start b) ∧
      (∀ s, ordered.filter (fun b => decide (Timed.start b = s)) =
        items.filter fun b => decide (Timed.start b = s)) ∧
      List.Forall₂ MovedRight ordered (resolve items) ∧
      (ordered.IsChain Clears → resolve items = ordered) ∧
      (resolve items).Pairwise Clears := by
  have hmem : ∀ b, b ∈ sortByStart items → b ∈ items := fun b =>
    (sortByStart_perm items).mem_iff.1
  rw [resolve_eq]
  refine ⟨sortByStart items, sortByStart_perm items, sortByStart_sorted items,
    filter_start_sortByStart items, movedRight_pushRight 0 _, fun hchain => ?_, ?_⟩
  · refine pushRight_of_isChain (fun b hb => ?_) hchain
    have hpos := hstart b (hmem b (List.mem_of_mem_head? hb))
    rw [overlapTolerance_eq]
    linarith
  · exact pushRight_ends (sortByStart_sorted items) fun b hb => hlength b (hmem b hb)

/-- A caption that is shown for a while. -/
def caption (id : String) (start length : Rat) : Overlay Rat where
  id := id
  trackId := "text"
  text := id
  x := 50
  y := 50
  fontSize := 32
  fontFamily := "Arial"
  color := "#ffffff"
  background := none
  bold := false
  italic := false
  start := start
  duration := length

/-- Captions out of order, one of which is shown for less than the tolerance. -/
def captions : List (Overlay Rat) :=
  [caption "c" 1 (1 / 2000), caption "a" 0 2, caption "d" 2 1, caption "b" 1 1]

theorem captions_in_order :
    (∀ b ∈ captions, 0 ≤ Timed.start b) ∧ (∀ b ∈ captions, 0 ≤ Timed.length b) ∧
      (resolve captions).map (fun o => (o.id, o.start)) =
        [("a", 0), ("c", 2), ("b", 4001 / 2000), ("d", 6001 / 2000)] ∧
      (resolve captions).Pairwise Clears := by
  have hstart : ∀ b ∈ captions, 0 ≤ Timed.start b := by decide +kernel
  have hlength : ∀ b ∈ captions, 0 ≤ Timed.length b := by decide +kernel
  obtain ⟨-, -, -, -, -, -, hclears⟩ := resolve_in_order hstart hlength
  exact ⟨hstart, hlength, by cbv, hclears⟩

/-! ## Pushing apart again -/

/-- Of two things, each given as it was and as it is now, the first has been pushed past the second,
which has been left where it was; it is shorter than the tolerance. -/
def Leaps (p q : β × β) : Prop :=
  Timed.start p.1 < Timed.start p.2 ∧ Timed.length p.1 < overlapTolerance ∧
    Timed.start q.2 = Timed.start q.1 ∧ Timed.start q.2 < Timed.start p.2

instance (p q : β × β) : Decidable (Leaps p q) := inferInstanceAs (Decidable (_ ∧ _ ∧ _ ∧ _))

/-- Things that are moved to the right, if at all, have not been moved if their starts sum up to as
much as before. -/
theorem eq_of_movedRight {items moved : List β} (h : List.Forall₂ MovedRight items moved)
    (hsum : (items.map Timed.start).sum = (moved.map Timed.start).sum) : moved = items := by
  induction h with
  | nil => rfl
  | @cons b x items moved hbx hrest ih =>
    obtain ⟨hle, hx⟩ := hbx
    have hless : (items.map Timed.start).sum ≤ (moved.map Timed.start).sum :=
      List.Forall₂.sum_le_sum <| List.forall₂_map_left_iff.2 <| List.forall₂_map_right_iff.2 <|
        hrest.imp fun _ _ hmoved => hmoved.1
    simp only [List.map_cons, List.sum_cons] at hsum
    have hstart : Timed.start x = Timed.start b := by linarith
    rw [hstart, LawfulTimed.startingAt_start] at hx
    rw [hx, ih (by linarith)]

/-- Pushed apart, each thing clears the one before it, however short it is. -/
theorem isChain_pushRight :
    ∀ (previous : Rat) (items : List β),
      (∀ x ∈ (pushRight previous items).head?, previous - overlapTolerance ≤ Timed.start x) ∧
        (pushRight previous items).IsChain Clears
  | _, [] => ⟨by simp [pushRight], List.isChain_nil⟩
  | previous, b :: items => by
    obtain ⟨s, -, -, hle, hs⟩ := pushRight_cons previous b items
    obtain ⟨hhead, hchain⟩ := isChain_pushRight (s + Timed.length b) items
    rw [hs]
    refine ⟨by simpa using hle, List.isChain_cons.2 ⟨fun x hx => ?_, hchain⟩⟩
    simpa [Clears] using hhead x hx

/-- A second run changes nothing just when the first one leaves all in the order of their starts. -/
theorem resolve_resolve_iff_sorted (items : List β) :
    resolve (resolve items) = resolve items ↔
      (resolve items).Pairwise fun a b => Timed.start a ≤ Timed.start b := by
  constructor
  · intro h
    -- What is moved at all is moved to the right, and in the end the starts are those there were.
    have hmoved := movedRight_pushRight 0 (sortByStart (resolve items))
    rw [← resolve_eq, h] at hmoved
    have hsum := ((sortByStart_perm (resolve items)).map Timed.start).sum_eq
    rw [eq_of_movedRight hmoved hsum]
    exact sortByStart_sorted _
  · intro h
    obtain ⟨hhead, hchain⟩ := isChain_pushRight 0 (sortByStart items)
    rw [← resolve_eq] at hhead hchain
    rw [resolve_eq (resolve items), sortByStart_of_sorted h]
    exact pushRight_of_isChain hhead hchain

/-- Things in order are out of order once they are pushed apart only where one leaps. -/
theorem isChain_pushRight_iff :
    ∀ {items : List β} (previous : Rat),
      items.Pairwise (fun a b => Timed.start a ≤ Timed.start b) → (∀ b ∈ items, 0 ≤ Timed.length b) →
      ((pushRight previous items).IsChain (fun a b => Timed.start a ≤ Timed.start b) ↔
        (items.zip (pushRight previous items)).IsChain fun p q => ¬ Leaps p q)
  | [], _, _, _ => by simp [pushRight]
  | [b], previous, _, _ => by
    obtain ⟨s, -, -, -, hs⟩ := pushRight_cons previous b []
    rw [hs]
    simp [pushRight]
  | b :: c :: items, previous, hsort, hl => by
    obtain ⟨hb, hrest⟩ := List.pairwise_cons.1 hsort
    have hlen := hl b (by simp)
    have hbc := hb c (by simp)
    obtain ⟨s, hor, -, -, hs⟩ := pushRight_cons previous b (c :: items)
    obtain ⟨s', hor', hle', hbound, hs'⟩ := pushRight_cons (s + Timed.length b) c items
    have hnext : s ≤ s' ↔ ¬ Leaps (b, Timed.startingAt b s) (c, Timed.startingAt c s') := by
      simp only [Leaps, LawfulTimed.start_startingAt]
      constructor
      · rintro hss ⟨-, -, -, hlt⟩
        exact absurd hlt (not_lt.2 hss)
      · intro hnot
        by_contra hlt
        rw [not_le] at hlt
        rcases hor' with rfl | rfl
        · exact hnot ⟨hbc.trans_lt hlt, by linarith, rfl, hlt⟩
        · linarith
    have ih := isChain_pushRight_iff (s + Timed.length b) hrest fun x hx =>
      hl x (List.mem_cons_of_mem _ hx)
    rw [hs'] at ih
    rw [hs, hs', List.zip_cons_cons, List.zip_cons_cons, List.isChain_cons_cons,
      List.isChain_cons_cons, ← List.zip_cons_cons, ← ih, LawfulTimed.start_startingAt,
      LawfulTimed.start_startingAt, hnext]

/-- **Pushing apart what has been pushed apart** changes nothing, unless a thing that is shorter than the
tolerance has been pushed past the one after it, which has been left where it was. -/
theorem resolve_resolve_iff {items : List β} (hlength : ∀ b ∈ items, 0 ≤ Timed.length b) :
    resolve (resolve items) = resolve items ↔
      ((sortByStart items).zip (resolve items)).IsChain fun p q => ¬ Leaps p q := by
  have htrans : IsTrans β fun a b => Timed.start a ≤ Timed.start b := ⟨fun _ _ _ => le_trans⟩
  rw [resolve_resolve_iff_sorted, ← List.isChain_iff_pairwise, resolve_eq]
  exact isChain_pushRight_iff 0 (sortByStart_sorted items) fun b hb =>
    hlength b ((sortByStart_perm items).mem_iff.1 hb)

/-- One of these captions is shown for less than the tolerance, and none leaps. -/
theorem captions_resolve_resolve :
    (∀ b ∈ captions, 0 ≤ Timed.length b) ∧
      (∃ b ∈ captions, Timed.length b < overlapTolerance) ∧
      resolve (resolve captions) = resolve captions := by
  have hlength : ∀ b ∈ captions, 0 ≤ Timed.length b := by decide +kernel
  have hshort : ∃ b ∈ captions, Timed.length b < overlapTolerance := by decide +kernel
  have hstay : ((sortByStart captions).zip (resolve captions)).IsChain fun p q => ¬ Leaps p q :=
    of_decide_eq_true (by cbv)
  exact ⟨hlength, hshort, (resolve_resolve_iff hlength).2 hstay⟩

/-- Captions of which the second, shown for less than the tolerance, is pushed past the third. -/
def flashes : List (Overlay Rat) :=
  [caption "a" 0 2, caption "b" 1 (1 / 2048), caption "c" (4095 / 2048) 1]

/-- Pushed apart again the second one is behind the third. -/
theorem flashes_resolve_resolve :
    (∀ b ∈ flashes, 0 ≤ Timed.start b) ∧ (∀ b ∈ flashes, 0 < Timed.length b) ∧
      (resolve flashes).map (fun o => (o.id, o.start)) = [("a", 0), ("b", 2), ("c", 4095 / 2048)] ∧
      (resolve (resolve flashes)).map (fun o => (o.id, o.start)) =
        [("a", 0), ("c", 4095 / 2048), ("b", 6143 / 2048)] ∧
      resolve (resolve flashes) ≠ resolve flashes := by
  have honce : (resolve flashes).map (fun o => (o.id, o.start)) =
      [("a", 0), ("b", 2), ("c", 4095 / 2048)] := by cbv
  have htwice : (resolve (resolve flashes)).map (fun o => (o.id, o.start)) =
      [("a", 0), ("c", 4095 / 2048), ("b", 6143 / 2048)] := by cbv
  refine ⟨by decide +kernel, by decide +kernel, honce, htwice, fun he => ?_⟩
  rw [he, honce] at htwice
  simp at htwice

end Montage
