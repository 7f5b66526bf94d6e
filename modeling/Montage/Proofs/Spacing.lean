/-
Things pushed apart on a track, in exact arithmetic.

Things are `Spaced` when they are in order and each starts no earlier than the
end of every thing before it, less the tolerance. `resolve` spaces any things
that are at least as long as the tolerance (`resolve_spaced`), leaves spaced
ones alone (`resolve_of_spaced`), and only ever changes a thing's start
(`resolve_map_perm`, `exists_of_mem_resolve`). It moves nothing to an earlier
start, and nothing at all before the first start at which things are not spaced
(`exists_of_mem_resolve_of_early`); `resolve_insert` says where one thing lands
among spaced ones. Shorter things may not end up in order, but any two of them
end up `Apart` (`resolve_apart`).
-/
import Montage.Proofs.Rational

namespace Montage

/-- A thing keeps what it is wherever it starts, and starts where it is put. -/
class LawfulTimed (β : Type) (α ι : outParam Type) [Timed β α ι] : Prop where
  id_startingAt : ∀ (b : β) (s : α), Timed.id (Timed.startingAt b s) = Timed.id b
  start_startingAt : ∀ (b : β) (s : α), Timed.start (Timed.startingAt b s) = s
  length_startingAt : ∀ (b : β) (s : α), Timed.length (Timed.startingAt b s) = Timed.length b
  startingAt_start : ∀ b : β, Timed.startingAt b (Timed.start b) = b

section Timed

variable {α ι : Type} [Scalar α]

instance : LawfulTimed (Clip α ι) α ι where
  id_startingAt _ _ := rfl
  start_startingAt _ _ := rfl
  length_startingAt _ _ := rfl
  startingAt_start _ := rfl

instance : LawfulTimed (Overlay α) α String where
  id_startingAt _ _ := rfl
  start_startingAt _ _ := rfl
  length_startingAt _ _ := rfl
  startingAt_start _ := rfl

attribute [simp] LawfulTimed.id_startingAt LawfulTimed.start_startingAt
  LawfulTimed.length_startingAt LawfulTimed.startingAt_start

variable {β γ : Type} [Timed β α ι]

/-! ## What spacing keeps

Of a thing it changes nothing but its start. -/

theorem sortByStart_perm (items : List β) : (sortByStart items).Perm items :=
  List.mergeSort_perm _ _

/-- What does not look at the start sees the same things before and after. -/
theorem map_pushRight {f : β → γ} (hf : ∀ b s, f (Timed.startingAt b s) = f b) :
    ∀ (previous : α) (items : List β), (pushRight previous items).map f = items.map f
  | _, [] => rfl
  | previous, b :: items => by
    simp only [pushRight]
    split
    · rw [List.map_cons, List.map_cons, hf, map_pushRight hf]
    · rw [List.map_cons, List.map_cons, map_pushRight hf]

theorem resolve_map_perm {f : β → γ} (hf : ∀ b s, f (Timed.startingAt b s) = f b)
    (items : List β) : ((resolve items).map f).Perm (items.map f) := by
  rw [resolve, map_pushRight hf]
  exact (sortByStart_perm items).map f

end Timed

variable {β ι : Type} [Timed β Rat ι]

/-- Of two things the second starts no earlier than the first, and no earlier
than its end less the tolerance. -/
def Follows (a b : β) : Prop :=
  Timed.start a ≤ Timed.start b ∧
    Timed.start a + Timed.length a - overlapTolerance ≤ Timed.start b

/-- Things in order, none of which starts before the end of one before it. -/
def Spaced (items : List β) : Prop := items.Pairwise Follows

/-- Two things are both there for no longer than the tolerance. -/
def Apart (a b : β) : Prop :=
  min (Timed.start a + Timed.length a) (Timed.start b + Timed.length b) -
    max (Timed.start a) (Timed.start b) ≤ overlapTolerance

theorem Apart.symm {a b : β} (h : Apart a b) : Apart b a := by
  rwa [Apart, min_comm, max_comm]

instance : Std.Symm (Apart : β → β → Prop) := ⟨fun _ _ => Apart.symm⟩

theorem Apart.of_end_le {a b : β}
    (h : Timed.start a + Timed.length a - overlapTolerance ≤ Timed.start b) : Apart a b := by
  have hend := min_le_left (Timed.start a + Timed.length a) (Timed.start b + Timed.length b)
  have hstart := le_max_right (Timed.start a) (Timed.start b)
  unfold Apart
  linarith

/-- Where a thing starts, and how long it is. -/
def place (b : β) : Rat × Rat := (Timed.start b, Timed.length b)

/-- Things in the same places are spaced alike. -/
theorem Spaced.of_map_place {items others : List β} (h : Spaced items)
    (he : others.map place = items.map place) : Spaced others := by
  have hplaces : ∀ l : List β, Spaced l ↔ (l.map place).Pairwise fun p q =>
      p.1 ≤ q.1 ∧ p.1 + p.2 - overlapTolerance ≤ q.1 := fun l => by
    rw [List.pairwise_map]
    rfl
  rw [hplaces, he, ← hplaces]
  exact h

/-- A thing exchanged for others within its span leaves those around it apart. -/
theorem Spaced.recut {pre mid post : List β} {old : β} (h : Spaced (pre ++ old :: post))
    (hmid : Spaced mid) (hstart : ∀ b ∈ mid, Timed.start old ≤ Timed.start b ∧
      Timed.start b ≤ Timed.start old + Timed.length old - overlapTolerance)
    (hfinish : ∀ b ∈ mid, Timed.start b + Timed.length b ≤ Timed.start old + Timed.length old) :
    Spaced (pre ++ (mid ++ post)) := by
  obtain ⟨hpre, hpost, hcross⟩ := List.pairwise_append.1 h
  obtain ⟨hold, hpost⟩ := List.pairwise_cons.1 hpost
  refine List.pairwise_append.2 ⟨hpre, List.pairwise_append.2 ⟨hmid, hpost, ?_⟩, ?_⟩
  · intro b hb c hc
    obtain ⟨-, hc⟩ := hold c hc
    exact ⟨(hstart b hb).2.trans hc, by linarith [hfinish b hb]⟩
  · intro a ha b hb
    rcases List.mem_append.1 hb with hb | hb
    · obtain ⟨hle, hend⟩ := hcross a ha old (by simp)
      exact ⟨hle.trans (hstart b hb).1, hend.trans (hstart b hb).1⟩
    · exact hcross a ha b (List.mem_cons_of_mem _ hb)

/-! ## Sorting -/

theorem startsLater_trans (a b c : β) (hab : (!decide (Timed.start b < Timed.start a)) = true)
    (hbc : (!decide (Timed.start c < Timed.start b)) = true) :
    (!decide (Timed.start c < Timed.start a)) = true := by
  simp only [Bool.not_eq_true', decide_eq_false_iff_not, not_lt] at *
  exact hab.trans hbc

theorem startsLater_total (a b : β) :
    (!decide (Timed.start b < Timed.start a) || !decide (Timed.start a < Timed.start b)) = true := by
  simpa using le_total (Timed.start a) (Timed.start b)

theorem sortByStart_sorted (items : List β) :
    (sortByStart items).Pairwise fun a b => Timed.start a ≤ Timed.start b :=
  (List.pairwise_mergeSort startsLater_trans startsLater_total items).imp fun h => by simpa using h

/-- In order, what starts before a place comes first. -/
theorem exists_late_of_sorted {place : Rat} :
    ∀ {items : List β}, items.Pairwise (fun a b => Timed.start a ≤ Timed.start b) →
      ∃ late, items = (items.filter fun b => decide (Timed.start b < place)) ++ late ∧
        ∀ b ∈ late, place ≤ Timed.start b
  | [], _ => ⟨[], rfl, by simp⟩
  | b :: items, h => by
    obtain ⟨hb, hrest⟩ := List.pairwise_cons.1 h
    by_cases hlt : Timed.start b < place
    · obtain ⟨late, hsplit, hlate⟩ := exists_late_of_sorted hrest
      refine ⟨late, ?_, hlate⟩
      rw [List.filter_cons_of_pos (by simpa using hlt), List.cons_append, ← hsplit]
    · have hall : ∀ c ∈ b :: items, place ≤ Timed.start c := fun c hc => by
        rcases List.mem_cons.1 hc with rfl | hc
        · exact not_lt.1 hlt
        · exact (not_lt.1 hlt).trans (hb c hc)
      refine ⟨b :: items, ?_, hall⟩
      rw [List.filter_eq_nil_iff.2 fun c hc => by simpa using hall c hc, List.nil_append]

/-- Sorting keeps the order of what is in order already. -/
theorem filter_sortByStart {items : List β} {p : β → Bool}
    (h : (items.filter p).Pairwise fun a b => Timed.start a ≤ Timed.start b) :
    (sortByStart items).filter p = items.filter p := by
  have hsub : (items.filter p).Sublist (sortByStart items) :=
    List.sublist_mergeSort startsLater_trans startsLater_total
      (h.imp fun hab => by simpa using hab) List.filter_sublist
  symm
  refine List.Sublist.eq_of_length ?_ ((sortByStart_perm items).filter _).length_eq.symm
  simpa using hsub.filter p

/-- Sorting leaves what starts before a place as it is, if that is in order. -/
theorem sortByStart_eq_append {items : List β} {place : Rat}
    (h : (items.filter fun b => decide (Timed.start b < place)).Pairwise
      fun a b => Timed.start a ≤ Timed.start b) :
    ∃ late, sortByStart items = (items.filter fun b => decide (Timed.start b < place)) ++ late ∧
      ∀ b ∈ late, place ≤ Timed.start b := by
  rw [← filter_sortByStart h]
  exact exists_late_of_sorted (sortByStart_sorted items)

theorem sortByStart_of_sorted {items : List β}
    (h : items.Pairwise fun a b => Timed.start a ≤ Timed.start b) : sortByStart items = items := by
  refine List.mergeSort_of_pairwise (h.imp fun hab => ?_)
  simpa using hab

/-- In order, what starts up to a place comes before what starts later. -/
theorem filter_append_of_sorted :
    ∀ {items : List β}, items.Pairwise (fun a b => Timed.start a ≤ Timed.start b) → ∀ place,
      (items.filter fun b => decide (Timed.start b ≤ place)) ++
        (items.filter fun b => decide (place < Timed.start b)) = items
  | [], _, _ => rfl
  | b :: items, h, place => by
    obtain ⟨hb, hrest⟩ := List.pairwise_cons.1 h
    by_cases hle : Timed.start b ≤ place
    · rw [List.filter_cons_of_pos (by simpa using hle), List.filter_cons_of_neg (by simpa using hle),
        List.cons_append, filter_append_of_sorted hrest]
    · have hlate : ∀ c ∈ b :: items, place < Timed.start c := fun c hc => by
        rcases List.mem_cons.1 hc with rfl | hc
        · exact not_le.1 hle
        · exact (not_le.1 hle).trans_le (hb c hc)
      rw [List.filter_eq_nil_iff.2 fun c hc => by simpa using hlate c hc,
        List.filter_eq_self.2 fun c hc => by simpa using hlate c hc, List.nil_append]

/-- One thing among things in order is sorted to behind those that start no later. -/
theorem sortByStart_insert {pre post : List β} {new : β}
    (h : (pre ++ post).Pairwise fun a b => Timed.start a ≤ Timed.start b)
    (hlate : ∀ b ∈ post, Timed.start new < Timed.start b) :
    sortByStart (pre ++ new :: post) =
      (pre.filter fun b => decide (Timed.start b ≤ Timed.start new)) ++
        new :: ((pre.filter fun b => decide (Timed.start new < Timed.start b)) ++ post) := by
  obtain ⟨hpre, hpost, hcross⟩ := List.pairwise_append.1 h
  have hnone : post.filter (fun b => decide (Timed.start b ≤ Timed.start new)) = [] :=
    List.filter_eq_nil_iff.2 fun b hb => by simpa using hlate b hb
  have hall : post.filter (fun b => decide (Timed.start new < Timed.start b)) = post :=
    List.filter_eq_self.2 fun b hb => by simpa using hlate b hb
  have hupto : (pre ++ new :: post).filter (fun b => decide (Timed.start b ≤ Timed.start new)) =
      (pre.filter fun b => decide (Timed.start b ≤ Timed.start new)) ++ [new] := by
    rw [List.filter_append, List.filter_cons_of_pos (by simp), hnone]
  have hbeyond : (pre ++ new :: post).filter (fun b => decide (Timed.start new < Timed.start b)) =
      (pre.filter fun b => decide (Timed.start new < Timed.start b)) ++ post := by
    rw [List.filter_append, List.filter_cons_of_neg (by simp), hall]
  rw [← filter_append_of_sorted (sortByStart_sorted (pre ++ new :: post)) (Timed.start new),
    filter_sortByStart, filter_sortByStart, hupto, hbeyond, List.append_assoc, List.singleton_append]
  · rw [hbeyond]
    exact h.sublist (List.filter_sublist.append_right _)
  · rw [hupto, List.pairwise_append]
    refine ⟨hpre.filter _, List.pairwise_singleton .., fun a ha b hb => ?_⟩
    rw [List.mem_singleton.1 hb]
    simpa using (List.mem_filter.1 ha).2

/-! ## Spaced things stay -/

theorem resolve_eq (items : List β) : resolve items = pushRight 0 (sortByStart items) := by
  simp [resolve]

theorem pushRight_of_spaced :
    ∀ {items : List β} {previous : Rat}, Spaced items →
      (∀ b ∈ items, previous - overlapTolerance ≤ Timed.start b) → pushRight previous items = items
  | [], _, _, _ => rfl
  | b :: items, previous, h, hle => by
    obtain ⟨hb, hrest⟩ := List.pairwise_cons.1 h
    have hkeep : ¬ Timed.start b < previous - overlapTolerance := not_lt.2 (hle b (by simp))
    simp only [pushRight, if_neg hkeep]
    rw [pushRight_of_spaced hrest fun c hc => (hb c hc).2]

theorem resolve_of_spaced {items : List β} (h : Spaced items)
    (hs : ∀ b ∈ items, 0 ≤ Timed.start b) : resolve items = items := by
  rw [resolve_eq, sortByStart_of_sorted (h.imp fun hab => hab.1)]
  refine pushRight_of_spaced h fun b hb => ?_
  have := hs b hb
  rw [overlapTolerance_eq]
  linarith

/-- Things that are spaced stay, whatever comes after them. -/
theorem pushRight_append_of_spaced (late : List β) :
    ∀ {early : List β} {previous : Rat}, Spaced early →
      (∀ b ∈ early, previous - overlapTolerance ≤ Timed.start b) →
      ∃ last, pushRight previous (early ++ late) = early ++ pushRight last late
  | [], previous, _, _ => ⟨previous, rfl⟩
  | b :: early, previous, h, hle => by
    obtain ⟨hb, hrest⟩ := List.pairwise_cons.1 h
    have hkeep : ¬ Timed.start b < previous - overlapTolerance := not_lt.2 (hle b (by simp))
    obtain ⟨last, hlast⟩ := pushRight_append_of_spaced late hrest fun c hc => (hb c hc).2
    refine ⟨last, ?_⟩
    simp only [List.cons_append, pushRight, if_neg hkeep, hlast]

/-! ## Pushing to the right -/

variable [LawfulTimed β Rat ι]

theorem pushRight_cons (previous : Rat) (b : β) (items : List β) :
    ∃ s, (s = Timed.start b ∨ s = previous) ∧ Timed.start b ≤ s ∧
      previous - overlapTolerance ≤ s ∧
      pushRight previous (b :: items) =
        Timed.startingAt b s :: pushRight (s + Timed.length b) items := by
  have htol : (0 : Rat) < overlapTolerance := by norm_num [overlapTolerance_eq]
  simp only [pushRight]
  split
  · exact ⟨previous, .inr rfl, by linarith, by linarith, rfl⟩
  · next h => exact ⟨Timed.start b, .inl rfl, le_rfl, not_lt.1 h, by simp⟩

theorem exists_of_mem_pushRight :
    ∀ {items : List β} {previous : Rat} {x : β}, x ∈ pushRight previous items →
      ∃ b ∈ items, ∃ s, Timed.start b ≤ s ∧ x = Timed.startingAt b s
  | [], _, _, h => by simp [pushRight] at h
  | b :: items, previous, x, h => by
    obtain ⟨s, -, hle, -, hs⟩ := pushRight_cons previous b items
    rw [hs, List.mem_cons] at h
    rcases h with rfl | h
    · exact ⟨b, by simp, s, hle, rfl⟩
    · obtain ⟨c, hc, hx⟩ := exists_of_mem_pushRight h
      exact ⟨c, by simp [hc], hx⟩

/-- Nothing ends up before the end it was pushed to, less the tolerance. -/
theorem le_start_of_mem_pushRight :
    ∀ {items : List β} {previous : Rat}, (∀ b ∈ items, overlapTolerance ≤ Timed.length b) →
      ∀ x ∈ pushRight previous items, previous - overlapTolerance ≤ Timed.start x
  | [], _, _, x, h => by simp [pushRight] at h
  | b :: items, previous, hl, x, h => by
    obtain ⟨s, -, -, hle, hs⟩ := pushRight_cons previous b items
    rw [hs, List.mem_cons] at h
    rcases h with rfl | h
    · simpa using hle
    · have hb := hl b (by simp)
      have hx := le_start_of_mem_pushRight (fun c hc => hl c (by simp [hc])) x h
      linarith

theorem pushRight_spaced :
    ∀ {items : List β} {previous : Rat}, (∀ b ∈ items, overlapTolerance ≤ Timed.length b) →
      Spaced (pushRight previous items)
  | [], _, _ => List.Pairwise.nil
  | b :: items, previous, hl => by
    obtain ⟨s, -, -, -, hs⟩ := pushRight_cons previous b items
    have hrest : ∀ c ∈ items, overlapTolerance ≤ Timed.length c := fun c hc => hl c (by simp [hc])
    rw [Spaced, hs, List.pairwise_cons]
    refine ⟨fun x hx => ?_, pushRight_spaced hrest⟩
    have hb := hl b (by simp)
    have hle := le_start_of_mem_pushRight hrest x hx
    simp only [Follows, LawfulTimed.start_startingAt, LawfulTimed.length_startingAt]
    exact ⟨by linarith, by linarith⟩

theorem start_nonneg_of_mem_pushRight :
    ∀ {items : List β} {previous : Rat}, 0 ≤ previous → (∀ b ∈ items, 0 ≤ Timed.start b) →
      (∀ b ∈ items, 0 ≤ Timed.length b) → ∀ x ∈ pushRight previous items, 0 ≤ Timed.start x
  | [], _, _, _, _, x, h => by simp [pushRight] at h
  | b :: items, previous, h0, hs0, hl, x, h => by
    obtain ⟨s, hor, -, -, hs⟩ := pushRight_cons previous b items
    have hpos : 0 ≤ s := by
      rcases hor with rfl | rfl
      · exact hs0 b (by simp)
      · exact h0
    rw [hs, List.mem_cons] at h
    rcases h with rfl | h
    · simpa using hpos
    · have hb := hl b (by simp)
      exact start_nonneg_of_mem_pushRight (by linarith) (fun c hc => hs0 c (by simp [hc]))
        (fun c hc => hl c (by simp [hc])) x h

/-! ## Short things

What is shorter than the tolerance may be pushed behind the start of what comes after it. Whatever
comes later still starts no earlier than the end of each thing before it, less the tolerance. -/

/-- Things in order end up no earlier than the end they were pushed to, less the tolerance: one that
is kept starts late enough for all that come after it. -/
theorem le_start_of_mem_pushRight_of_sorted :
    ∀ {items : List β} {previous : Rat},
      items.Pairwise (fun a b => Timed.start a ≤ Timed.start b) →
      (∀ b ∈ items, 0 ≤ Timed.length b) →
      ∀ x ∈ pushRight previous items, previous - overlapTolerance ≤ Timed.start x
  | [], _, _, _, x, h => by simp [pushRight] at h
  | b :: items, previous, hsort, hl, x, h => by
    obtain ⟨hb, hrest⟩ := List.pairwise_cons.1 hsort
    obtain ⟨s, hor, -, hle, hs⟩ := pushRight_cons previous b items
    rw [hs, List.mem_cons] at h
    rcases h with rfl | h
    · simpa using hle
    rcases hor with rfl | rfl
    · obtain ⟨c, hc, s, hcs, rfl⟩ := exists_of_mem_pushRight h
      rw [LawfulTimed.start_startingAt]
      exact (hle.trans (hb c hc)).trans hcs
    · have hlen := hl b (by simp)
      have hx := le_start_of_mem_pushRight_of_sorted hrest (fun c hc => hl c (by simp [hc])) x h
      linarith

theorem pushRight_ends :
    ∀ {items : List β} {previous : Rat},
      items.Pairwise (fun a b => Timed.start a ≤ Timed.start b) →
      (∀ b ∈ items, 0 ≤ Timed.length b) →
      (pushRight previous items).Pairwise fun a b =>
        Timed.start a + Timed.length a - overlapTolerance ≤ Timed.start b
  | [], _, _, _ => List.Pairwise.nil
  | b :: items, previous, hsort, hl => by
    obtain ⟨s, -, -, -, hs⟩ := pushRight_cons previous b items
    obtain ⟨-, hrest⟩ := List.pairwise_cons.1 hsort
    have hlrest : ∀ c ∈ items, 0 ≤ Timed.length c := fun c hc => hl c (by simp [hc])
    rw [hs, List.pairwise_cons]
    refine ⟨fun x hx => ?_, pushRight_ends hrest hlrest⟩
    rw [LawfulTimed.start_startingAt, LawfulTimed.length_startingAt]
    exact le_start_of_mem_pushRight_of_sorted hrest hlrest x hx

/-! ## Resolving -/

theorem exists_of_mem_resolve {items : List β} {x : β} (h : x ∈ resolve items) :
    ∃ b ∈ items, ∃ s, Timed.start b ≤ s ∧ x = Timed.startingAt b s := by
  rw [resolve_eq] at h
  obtain ⟨b, hb, hx⟩ := exists_of_mem_pushRight h
  exact ⟨b, (sortByStart_perm items).mem_iff.1 hb, hx⟩

theorem resolve_spaced {items : List β} (hl : ∀ b ∈ items, overlapTolerance ≤ Timed.length b) :
    Spaced (resolve items) := by
  rw [resolve_eq]
  exact pushRight_spaced fun b hb => hl b ((sortByStart_perm items).mem_iff.1 hb)

/-- However short things are, any two of them end up apart. -/
theorem resolve_apart {items : List β} (hl : ∀ b ∈ items, 0 ≤ Timed.length b) :
    (resolve items).Pairwise Apart := by
  rw [resolve_eq]
  refine (pushRight_ends (sortByStart_sorted items) fun b hb => ?_).imp Apart.of_end_le
  exact hl b ((sortByStart_perm items).mem_iff.1 hb)

theorem start_nonneg_of_mem_resolve {items : List β} (hs : ∀ b ∈ items, 0 ≤ Timed.start b)
    (hl : ∀ b ∈ items, 0 ≤ Timed.length b) {x : β} (h : x ∈ resolve items) : 0 ≤ Timed.start x := by
  rw [resolve_eq] at h
  have hmem : ∀ {b : β}, b ∈ sortByStart items → b ∈ items := (sortByStart_perm items).mem_iff.1
  exact start_nonneg_of_mem_pushRight le_rfl (fun b hb => hs b (hmem hb))
    (fun b hb => hl b (hmem hb)) x h

/-- What starts before a place stays if all that does is spaced. -/
theorem exists_of_mem_resolve_of_early {items : List β} {place : Rat}
    (h : Spaced (items.filter fun b => decide (Timed.start b < place)))
    (hs : ∀ b ∈ items, 0 ≤ Timed.start b) {x : β} (hx : x ∈ resolve items) :
    ∃ b ∈ items, ∃ s, Timed.start b ≤ s ∧ (Timed.start b < s → place ≤ Timed.start b) ∧
      x = Timed.startingAt b s := by
  obtain ⟨late, hsort, hlate⟩ := sortByStart_eq_append (h.imp fun hab => hab.1)
  have hmem : ∀ b ∈ sortByStart items, b ∈ items := fun b => (sortByStart_perm items).mem_iff.1
  rw [hsort] at hmem
  have hstay : ∀ b ∈ items.filter (fun b => decide (Timed.start b < place)),
      0 - overlapTolerance ≤ Timed.start b := fun b hb => by
    have := hs b (List.mem_filter.1 hb).1
    rw [overlapTolerance_eq]
    linarith
  obtain ⟨last, hlast⟩ := pushRight_append_of_spaced late h hstay
  rw [resolve_eq, hsort, hlast, List.mem_append] at hx
  rcases hx with hx | hx
  · exact ⟨x, (List.mem_filter.1 hx).1, Timed.start x, le_rfl, fun h => absurd h (lt_irrefl _),
      by simp⟩
  · obtain ⟨b, hb, s, hle, rfl⟩ := exists_of_mem_pushRight hx
    exact ⟨b, hmem b (List.mem_append_right _ hb), s, hle, fun _ => hlate b hb, rfl⟩

/-! ## One thing among spaced ones -/

/-- Behind spaced things that start no later a thing stays, if it starts no earlier than the end of any
of them, less the tolerance; otherwise it goes to such an end. -/
theorem pushRight_append_cons (new : β) :
    ∀ (previous : Rat) {early : List β}, Spaced early →
      (∀ b ∈ early, previous - overlapTolerance ≤ Timed.start b ∧ Timed.start b ≤ Timed.start new) →
      ∃ x, (∀ late, pushRight previous (early ++ new :: late) =
          early ++ Timed.startingAt new x :: pushRight (x + Timed.length new) late) ∧
        ((x = Timed.start new ∧ previous - overlapTolerance ≤ Timed.start new ∧
            ∀ a ∈ early, Timed.start a + Timed.length a - overlapTolerance ≤ Timed.start new) ∨
          (Timed.start new < x - overlapTolerance ∧
            (x = previous ∨ ∃ a ∈ early, x = Timed.start a + Timed.length a)))
  | previous, [], _, _ => by
    by_cases hpush : Timed.start new < previous - overlapTolerance
    · exact ⟨previous, by simp [pushRight, if_pos hpush], .inr ⟨hpush, .inl rfl⟩⟩
    · exact ⟨Timed.start new, by simp [pushRight, if_neg hpush], .inl ⟨rfl, not_lt.1 hpush, by simp⟩⟩
  | previous, b :: early, h, hle => by
    obtain ⟨hb, hrest⟩ := List.pairwise_cons.1 h
    obtain ⟨hkeep, hnew⟩ := hle b (by simp)
    obtain ⟨x, hx, hcases⟩ := pushRight_append_cons new _ hrest
      fun c hc => ⟨(hb c hc).2, (hle c (List.mem_cons_of_mem _ hc)).2⟩
    refine ⟨x, fun late => ?_, ?_⟩
    · rw [List.cons_append, pushRight, if_neg (not_lt.2 hkeep), hx, List.cons_append]
    · rcases hcases with ⟨rfl, hend, hends⟩ | ⟨hlt, hor⟩
      · refine .inl ⟨rfl, hkeep.trans hnew, fun a ha => ?_⟩
        rcases List.mem_cons.1 ha with rfl | ha
        · exact hend
        · exact hends a ha
      · refine .inr ⟨hlt, .inr ?_⟩
        rcases hor with rfl | ⟨a, ha, he⟩
        · exact ⟨b, by simp, rfl⟩
        · exact ⟨a, List.mem_cons_of_mem _ ha, he⟩

/-- **Where a thing lands among spaced ones.** Those that start no later stay. It starts where it asks
to unless one of them ends later, by more than the tolerance: then it starts at the end of one. All
others are pushed to the right of it. -/
theorem resolve_insert {pre post : List β} {new : β} (h : Spaced (pre ++ post))
    (hpos : ∀ b ∈ pre, 0 ≤ Timed.start b) (hnew : 0 ≤ Timed.start new)
    (hlate : ∀ b ∈ post, Timed.start new < Timed.start b) :
    ∃ x, resolve (pre ++ new :: post) =
        (pre.filter fun b => decide (Timed.start b ≤ Timed.start new)) ++
          Timed.startingAt new x :: pushRight (x + Timed.length new)
            ((pre.filter fun b => decide (Timed.start new < Timed.start b)) ++ post) ∧
      ((x = Timed.start new ∧ ∀ a ∈ pre, Timed.start a ≤ Timed.start new →
          Timed.start a + Timed.length a - overlapTolerance ≤ Timed.start new) ∨
        (Timed.start new < x - overlapTolerance ∧ ∃ a ∈ pre, Timed.start a ≤ Timed.start new ∧
          x = Timed.start a + Timed.length a)) := by
  have hearly : Spaced (pre.filter fun b => decide (Timed.start b ≤ Timed.start new)) :=
    h.sublist (List.filter_sublist.trans (List.sublist_append_left ..))
  rw [resolve_eq, sortByStart_insert (h.imp fun hab => hab.1) hlate]
  have hstay : ∀ b ∈ pre.filter fun b => decide (Timed.start b ≤ Timed.start new),
      0 - overlapTolerance ≤ Timed.start b ∧ Timed.start b ≤ Timed.start new := fun b hb => by
    obtain ⟨hb, hle⟩ := List.mem_filter.1 hb
    have hstart := hpos b hb
    rw [overlapTolerance_eq]
    exact ⟨by linarith, by simpa using hle⟩
  obtain ⟨x, hx, ⟨he, -, hends⟩ | ⟨hlt, hor⟩⟩ := pushRight_append_cons new 0 hearly hstay
  · exact ⟨x, hx _, .inl ⟨he, fun a ha hle => hends a (List.mem_filter.2 ⟨ha, by simpa using hle⟩)⟩⟩
  · have hpushed : x ≠ 0 := by
      rintro rfl
      rw [overlapTolerance_eq] at hlt
      linarith
    obtain ⟨a, ha, he⟩ := hor.resolve_left hpushed
    obtain ⟨ha, hle⟩ := List.mem_filter.1 ha
    exact ⟨x, hx _, .inr ⟨hlt, a, ha, by simpa using hle, he⟩⟩

end Montage
