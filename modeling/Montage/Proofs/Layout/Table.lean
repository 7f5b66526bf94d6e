/-
The table of transitions, entry by entry.

A transition that has an effect has a place: a side of a clip (`Transition.place?`). The table
has one entry for each place that is taken (`transitionTable_keys`), and it is that of
the first transition there (`mem_transitionTable_of_first`): a later one might as well
not be listed (`transitionTable_of_ignored`).
-/
import Mathlib.Data.List.Induction
import Mathlib.Data.List.Nodup
import Montage.Layout.Grouping
import Montage.Proofs.Keyed

namespace Montage

/-! ## Indices -/

section Indices

variable {κ : Type} [BEq κ] [LawfulBEq κ] {ids : List κ} {id : κ} {i : Nat}

theorem getElem?_of_lastIndex? (h : lastIndex? ids id = some i) : ids[i]? = some id := by
  simp only [lastIndex?, Option.map_eq_some_iff] at h
  obtain ⟨e, he, rfl⟩ := h
  have hmem : e ∈ ids.zipIdx := List.mem_reverse.1 (List.mem_of_find?_eq_some he)
  have hid : e.1 = id := by simpa using List.find?_some he
  rw [← hid]
  exact List.mem_zipIdx_iff_getElem?.1 hmem

theorem lastIndex?_eq_none : lastIndex? ids id = none ↔ id ∉ ids := by
  constructor
  · intro h hid
    obtain ⟨i, hi⟩ := List.mem_iff_getElem?.1 hid
    have hnone : ids.zipIdx.reverse.find? (·.1 == id) = none := by simpa [lastIndex?] using h
    have hmem : (id, i) ∈ ids.zipIdx.reverse :=
      List.mem_reverse.2 (List.mem_zipIdx_iff_getElem?.2 hi)
    simpa using List.find?_eq_none.1 hnone _ hmem
  · intro h
    cases hi : lastIndex? ids id with
    | none => rfl
    | some i => exact absurd (List.mem_of_getElem? (getElem?_of_lastIndex? hi)) h

theorem lastIndex?_eq_some (hn : ids.Nodup) : lastIndex? ids id = some i ↔ ids[i]? = some id := by
  refine ⟨getElem?_of_lastIndex?, fun h => ?_⟩
  cases hk : lastIndex? ids id with
  | none => exact absurd (List.mem_of_getElem? h) (lastIndex?_eq_none.1 hk)
  | some k =>
    have hlt := (List.getElem?_eq_some_iff.1 h).1
    rw [(List.getElem?_inj hlt hn).1 (h.trans (getElem?_of_lastIndex? hk).symm)]

end Indices

variable {α ι : Type}

/-! ## Places -/

/-- The place of a transition that has an effect on the clips with some ids. -/
def Transition.place? [BEq ι] (ids : List ι) (x : Transition α ι) : Option Junction :=
  if x.kind = .none then none else (lastIndex? ids x.clipId).map (·, x.side)

namespace Transition

variable [BEq ι] {ids : List ι} {x : Transition α ι} {place : Junction}

theorem side_of_place? (h : x.place? ids = some place) : x.side = place.2 := by
  unfold place? at h
  split at h
  · cases h
  · obtain ⟨i, -, rfl⟩ := Option.map_eq_some_iff.1 h
    rfl

variable [LawfulBEq ι]

theorem place?_eq_some (hn : ids.Nodup) :
    x.place? ids = some place ↔
      x.kind ≠ .none ∧ ids[place.1]? = some x.clipId ∧ x.side = place.2 := by
  obtain ⟨i, side⟩ := place
  unfold place?
  split <;> simp_all [lastIndex?_eq_some]

theorem place?_eq_none : x.place? ids = none ↔ x.kind = .none ∨ x.clipId ∉ ids := by
  unfold place?
  split <;> simp_all [lastIndex?_eq_none]

end Transition

/-! ## Entries -/

namespace TransitionTable

variable {table : TransitionTable α ι} {place : Junction} {x : Transition α ι}
  {entry : Junction × Transition α ι}

theorem mem_offer (h : entry ∈ table) : entry ∈ table.offer place x := by
  unfold offer
  split
  · exact h
  · exact List.mem_append_left _ h

theorem of_mem_offer (h : entry ∈ table.offer place x) : entry ∈ table ∨ entry = (place, x) := by
  unfold offer at h
  split at h
  · exact .inl h
  · simpa using h

theorem exists_mem_offer (table : TransitionTable α ι) (place : Junction) (x : Transition α ι) :
    ∃ e ∈ table.offer place x, e.1 = place := by
  unfold offer
  split
  · next h => simpa using h
  · exact ⟨(place, x), by simp, rfl⟩

theorem offer_of_taken (h : entry ∈ table) : table.offer entry.1 x = table :=
  if_pos (List.any_eq_true.2 ⟨entry, h, by simp⟩)

theorem offer_of_free (h : ∀ e ∈ table, e.1 ≠ place) : table.offer place x = table ++ [(place, x)] :=
  if_neg fun htaken => by
    obtain ⟨e, he, hkey⟩ := List.any_eq_true.1 htaken
    exact h e he (beq_iff_eq.1 hkey)

theorem offer_keys (h : (table.map (·.1)).Nodup) : ((table.offer place x).map (·.1)).Nodup := by
  unfold offer
  split
  · exact h
  · next hfree =>
    rw [List.map_append, List.map_singleton, ← List.concat_eq_append]
    exact h.concat (by simpa using hfree)

/-- With one entry for a place, it is the one that is found. -/
theorem get?_eq_some (hn : (table.map (·.1)).Nodup) :
    table.get? place = some x ↔ (place, x) ∈ table := by
  unfold get?
  constructor
  · intro h
    obtain ⟨e, he, rfl⟩ := Option.map_eq_some_iff.1 h
    have hkey : e.1 = place := by simpa using List.find?_some he
    rw [← hkey]
    exact List.mem_of_find?_eq_some he
  · intro h
    rw [find?_key_eq_some hn h rfl]
    rfl

end TransitionTable

/-! ## The table of a list -/

section Table

variable [BEq ι] {ids : List ι} {xs before after : List (Transition α ι)} {x : Transition α ι}
  {entry : Junction × Transition α ι} {place : Junction}

/-- The table with a transition more, if it has an effect. -/
def TransitionTable.note (ids : List ι) (table : TransitionTable α ι) (x : Transition α ι) :
    TransitionTable α ι :=
  match x.place? ids with
  | some place => table.offer place x
  | none => table

theorem transitionTable_eq (ids : List ι) (xs : List (Transition α ι)) :
    transitionTable ids xs = xs.foldl (TransitionTable.note ids) [] := by
  unfold transitionTable
  congr
  funext table x
  unfold TransitionTable.note Transition.place?
  split
  · rfl
  · cases lastIndex? ids x.clipId <;> rfl

theorem transitionTable_append (ids : List ι) (xs ys : List (Transition α ι)) :
    transitionTable ids (xs ++ ys) = ys.foldl (TransitionTable.note ids) (transitionTable ids xs) := by
  rw [transitionTable_eq, transitionTable_eq, List.foldl_append]

theorem transitionTable_concat (ids : List ι) (xs : List (Transition α ι)) (x : Transition α ι) :
    transitionTable ids (xs ++ [x]) = (transitionTable ids xs).note ids x :=
  transitionTable_append ids xs [x]

theorem transitionTable_keys (ids : List ι) (xs : List (Transition α ι)) :
    ((transitionTable ids xs).map (·.1)).Nodup := by
  induction xs using List.reverseRecOn with
  | nil => exact List.nodup_nil
  | append_singleton xs x ih =>
    rw [transitionTable_concat, TransitionTable.note]
    split
    · exact TransitionTable.offer_keys ih
    · exact ih

/-- An entry is that of a transition which has its place. -/
theorem place?_of_mem_transitionTable (h : entry ∈ transitionTable ids xs) :
    entry.2 ∈ xs ∧ entry.2.place? ids = some entry.1 := by
  induction xs using List.reverseRecOn with
  | nil => cases h
  | append_singleton xs x ih =>
    have hold (h : entry ∈ transitionTable ids xs) :
        entry.2 ∈ xs ++ [x] ∧ entry.2.place? ids = some entry.1 :=
      ⟨List.mem_append_left _ (ih h).1, (ih h).2⟩
    rw [transitionTable_concat, TransitionTable.note] at h
    split at h
    · next place hplace =>
      rcases TransitionTable.of_mem_offer h with h | rfl
      · exact hold h
      · exact ⟨by simp, hplace⟩
    · exact hold h

/-- Every place that a transition has is taken. -/
theorem exists_entry (hx : x ∈ xs) (hplace : x.place? ids = some place) :
    ∃ e ∈ transitionTable ids xs, e.1 = place := by
  induction xs using List.reverseRecOn with
  | nil => cases hx
  | append_singleton xs y ih =>
    rw [transitionTable_concat]
    rcases List.mem_append.1 hx with hx | hx
    · obtain ⟨e, he, hkey⟩ := ih hx
      refine ⟨e, ?_, hkey⟩
      unfold TransitionTable.note
      split
      · exact TransitionTable.mem_offer he
      · exact he
    · rw [List.mem_singleton] at hx
      rw [TransitionTable.note, ← hx, hplace]
      exact TransitionTable.exists_mem_offer _ _ _

theorem mem_foldl_note {table : TransitionTable α ι} (h : entry ∈ table) :
    entry ∈ xs.foldl (TransitionTable.note ids) table := by
  induction xs generalizing table with
  | nil => exact h
  | cons x xs ih =>
    refine ih ?_
    unfold TransitionTable.note
    split
    · exact TransitionTable.mem_offer h
    · exact h

/-- The first transition of a place is in the table. -/
theorem mem_transitionTable_of_first (hplace : x.place? ids = some place)
    (hfirst : ∀ y ∈ before, y.place? ids ≠ some place) :
    (place, x) ∈ transitionTable ids (before ++ x :: after) := by
  have hfree : ∀ e ∈ transitionTable ids before, e.1 ≠ place := fun e he hkey => by
    obtain ⟨hmem, hthere⟩ := place?_of_mem_transitionTable he
    exact hfirst _ hmem (hkey ▸ hthere)
  rw [transitionTable_append, List.foldl_cons]
  refine mem_foldl_note ?_
  simp only [TransitionTable.note, hplace, TransitionTable.offer_of_free hfree]
  simp

/-- A transition without a place, or with one that is taken, is passed over. -/
theorem transitionTable_of_ignored
    (h : ∀ place, x.place? ids = some place → ∃ y ∈ before, y.place? ids = some place) :
    transitionTable ids (before ++ x :: after) = transitionTable ids (before ++ after) := by
  have hnote : (transitionTable ids before).note ids x = transitionTable ids before := by
    unfold TransitionTable.note
    split
    · next place hplace =>
      obtain ⟨y, hy, hyplace⟩ := h place hplace
      obtain ⟨e, he, rfl⟩ := exists_entry hy hyplace
      exact TransitionTable.offer_of_taken he
    · rfl
  rw [transitionTable_append, transitionTable_append, List.foldl_cons, hnote]

theorem mem_of_claim? {i : Nat} (h : (transitionTable ids xs).claim? i = some x) : x ∈ xs := by
  have hget {place : Junction} (h : (transitionTable ids xs).get? place = some x) : x ∈ xs :=
    (place?_of_mem_transitionTable ((TransitionTable.get?_eq_some
      (transitionTable_keys ids xs)).1 h)).1
  unfold TransitionTable.claim? at h
  rw [Option.orElse_eq_orElse, Option.orElse_eq_or, Option.or_eq_some_iff] at h
  rcases h with h | ⟨-, h⟩
  · exact hget h
  · exact hget h

end Table

end Montage
