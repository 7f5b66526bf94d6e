/-
What becomes of each transition, whatever the numbers of the picture are.

Every join sits at its own two sides of clips, and each clip has all of its sides at joins but
those at the ends of its run (`isEdge_iff`). So a transition that has an effect either
has a place at a join, where it is the one of the join or shadowed by the one into the next clip, or at
an end of a run, where it fades its clip alone (`groupClips_one_fate`).
-/
import Montage.Proofs.Layout.Lengths
import Montage.Proofs.Layout.Pieces
import Montage.Proofs.Layout.Table

namespace Montage

/-- A thing of some sort in a list that has no other. -/
def Sole {γ : Type} (l : List γ) (p : γ → Prop) (x : γ) : Prop :=
  ∃ pre post, l = pre ++ x :: post ∧ p x ∧ ∀ y ∈ pre ++ post, ¬ p y

theorem Sole.of_nodup {γ κ : Type} {key : γ → κ} {l : List γ} {p : γ → Prop} {x : γ}
    (hn : (l.map key).Nodup) (hx : x ∈ l) (hp : p x) (h : ∀ y ∈ l, p y → key y = key x) :
    Sole l p x := by
  obtain ⟨pre, post, hsplit, hne⟩ := exists_split_of_mem hn hx
  refine ⟨pre, post, hsplit, hp, fun y hy hpy => hne y hy (h y ?_ hpy)⟩
  rw [hsplit, List.mem_append, List.mem_cons]
  exact (List.mem_append.1 hy).imp_right .inr

theorem Sole.mem {γ : Type} {l : List γ} {p : γ → Prop} {x : γ} (h : Sole l p x) : x ∈ l ∧ p x := by
  obtain ⟨pre, post, rfl, hp, -⟩ := h
  exact ⟨by simp, hp⟩

variable {α ι : Type}

/-! ## The ends of runs -/

/-- The clip of which a side is at a join. -/
def Join.clipAt (j : Join α ι) : Side → Nat
  | .start => j.right
  | .finish => j.left

/-- All joins of a picture. -/
def Grouping.joins (g : Grouping α ι) : List (Join α ι) := g.pieces.flatMap Piece.joins

/-- Whether a side of a clip is the end of its run on that side. -/
def Grouping.IsEdge (g : Grouping α ι) (i : Nat) : Side → Prop
  | .start => ∃ r, .run r ∈ g.pieces ∧ r.clips.head? = some i
  | .finish => ∃ r, .run r ∈ g.pieces ∧ r.clips.getLast? = some i

theorem consumes_iff (g : Grouping α ι) (i : Nat) (side : Side) :
    g.consumes (i, side) = true ↔ ∃ j ∈ g.joins, j.clipAt side = i := by
  simp only [Grouping.consumes, Grouping.joins, List.any_eq_true, List.mem_flatMap, Bool.or_eq_true,
    beq_iff_eq, Prod.mk.injEq]
  constructor
  · rintro ⟨p, hp, j, hj, ⟨rfl, rfl⟩ | ⟨rfl, rfl⟩⟩ <;> exact ⟨j, ⟨p, hp, hj⟩, rfl⟩
  · rintro ⟨j, ⟨p, hp, hj⟩, rfl⟩
    cases side with
    | start => exact ⟨p, hp, j, hj, .inl ⟨rfl, rfl⟩⟩
    | finish => exact ⟨p, hp, j, hj, .inr ⟨rfl, rfl⟩⟩

section Runs

variable {ps : List (Piece α ι)}

/-- Each clip is the first of its run, or at the right of a join. -/
theorem perm_firsts (h : ∀ r, .run r ∈ ps → r.Linked) :
    (ps.flatMap Piece.clips).Perm
      (ps.filterMap (·.clips.head?) ++ (ps.flatMap Piece.joins).map (·.right)) := by
  induction ps with
  | nil => exact .refl _
  | cons p ps ih =>
    have ih := ih fun r hr => h r (List.mem_cons_of_mem _ hr)
    cases p with
    | gap d => exact ih
    | run r =>
      have hr := h r (by simp)
      obtain ⟨first, rest, hclips⟩ := List.exists_cons_of_ne_nil hr.nonempty
      have hrights : r.joins.map (·.right) = rest := by rw [hr.rights, hclips, List.tail_cons]
      simp only [List.flatMap_cons, List.map_append, Piece.clips, Piece.joins, hclips, hrights,
        List.filterMap_cons, List.head?_cons, List.cons_append]
      exact ((ih.append_left rest).trans (List.perm_append_comm_assoc _ _ _)).cons first

/-- Each clip is the last of its run, or at the left of a join. -/
theorem perm_lasts (h : ∀ r, .run r ∈ ps → r.Linked) :
    (ps.flatMap Piece.clips).Perm
      (ps.filterMap (·.clips.getLast?) ++ (ps.flatMap Piece.joins).map (·.left)) := by
  induction ps with
  | nil => exact .refl _
  | cons p ps ih =>
    have ih := ih fun r hr => h r (List.mem_cons_of_mem _ hr)
    cases p with
    | gap d => exact ih
    | run r =>
      have hr := h r (by simp)
      obtain ⟨front, last, hclips⟩ := List.eq_nil_or_concat r.clips |>.resolve_left hr.nonempty
      rw [List.concat_eq_append] at hclips
      have hlefts : r.joins.map (·.left) = front := by rw [hr.lefts, hclips, List.dropLast_concat]
      simp only [List.flatMap_cons, List.map_append, Piece.clips, Piece.joins, hclips, hlefts,
        List.filterMap_cons, List.getLast?_concat, List.cons_append, List.append_assoc]
      refine List.perm_middle.trans (List.Perm.cons last ?_)
      exact (ih.append_left front).trans (List.perm_append_comm_assoc _ _ _)

end Runs

variable [Scalar α] [BEq ι] {clips : List (Clip α ι)} {gaps : List (Gap α)}
  {xs : List (Transition α ι)}

variable (clips gaps xs) in
theorem groupClips_perm (side : Side) :
    ∃ edges, (∀ i, i ∈ edges ↔ (groupClips clips gaps xs).IsEdge i side) ∧
      (List.range clips.length).Perm
        (edges ++ (groupClips clips gaps xs).joins.map (·.clipAt side)) := by
  have hcover : (groupClips clips gaps xs).pieces.flatMap Piece.clips = List.range clips.length :=
    (pieces_clips (clips.map Clip.visibleDuration)).trans (by rw [List.length_map])
  have hlinked : ∀ r, .run r ∈ (groupClips clips gaps xs).pieces → r.Linked :=
    fun r hr => linked_of_mem_pieces hr
  have hedge {f : List Nat → Option Nat} (hf : f [] = none) (i : Nat) :
      i ∈ (groupClips clips gaps xs).pieces.filterMap (fun p => f p.clips) ↔
        ∃ r, .run r ∈ (groupClips clips gaps xs).pieces ∧ f r.clips = some i := by
    rw [List.mem_filterMap]
    constructor
    · rintro ⟨p, hp, hi⟩
      cases p with
      | gap d => simp [Piece.clips, hf] at hi
      | run r => exact ⟨r, hp, hi⟩
    · rintro ⟨r, hr, hi⟩
      exact ⟨.run r, hr, hi⟩
  rw [← hcover]
  cases side with
  | start => exact ⟨_, hedge rfl, perm_firsts hlinked⟩
  | finish => exact ⟨_, hedge rfl, perm_lasts hlinked⟩

/-- Two joins do not share a side of a clip. -/
theorem nodup_clipAt (side : Side) :
    ((groupClips clips gaps xs).joins.map (·.clipAt side)).Nodup := by
  obtain ⟨edges, -, hperm⟩ := groupClips_perm clips gaps xs side
  exact (List.nodup_append'.1 (hperm.nodup_iff.1 List.nodup_range)).2.1

/-- A side of a clip is an end of its run just when it is at no join. -/
theorem isEdge_iff {i : Nat} (hi : i < clips.length) (side : Side) :
    (groupClips clips gaps xs).IsEdge i side ↔
      ∀ j ∈ (groupClips clips gaps xs).joins, j.clipAt side ≠ i := by
  obtain ⟨edges, hedges, hperm⟩ := groupClips_perm clips gaps xs side
  have hdisjoint := (List.nodup_append'.1 (hperm.nodup_iff.1 List.nodup_range)).2.2
  have hmem := hperm.mem_iff.1 (List.mem_range.2 hi)
  rw [← hedges]
  constructor
  · rintro he j hj rfl
    exact hdisjoint he (List.mem_map_of_mem hj)
  · intro hne
    refine (List.mem_append.1 hmem).resolve_right fun hjoin => ?_
    obtain ⟨j, hj, hat⟩ := List.mem_map.1 hjoin
    exact hne j hj hat

/-! ## The transition of a join -/

theorem claim?_of_mem_joins {j : Join α ι} (hj : j ∈ (groupClips clips gaps xs).joins) :
    j.right = j.left + 1 ∧ j.transition = (groupClips clips gaps xs).table.claim? j.left := by
  obtain ⟨p, hp, hj⟩ := List.mem_flatMap.1 hj
  cases p with
  | gap d => cases hj
  | run r =>
    rw [groupClips, eq_map_getD (clips.map Clip.visibleDuration) 0.0] at hp
    obtain ⟨i, -, h⟩ := exists_of_mem_pieces
      (P := fun r _ => ∀ j ∈ r.joins, j.right = j.left + 1 ∧
        j.transition = (groupClips clips gaps xs).table.claim? j.left)
      (fun i _ => by simp [Run.single])
      (fun r i _ hr j hj => by
        rcases List.mem_append.1 hj with hj | hj
        · exact hr j hj
        · rw [List.mem_singleton.1 hj]
          simp [groupClips]) hp
    exact h j hj

section Sides

variable {x : Transition α ι} {place : Junction} {j : Join α ι}

theorem get?_table : (groupClips clips gaps xs).table.get? place = some x ↔
    (place, x) ∈ transitionTable (clips.map (·.id)) xs :=
  TransitionTable.get?_eq_some (transitionTable_keys _ _)

/-- A join takes the transition at its start side, or else the one at its end side. -/
theorem join_takes (hj : j ∈ (groupClips clips gaps xs).joins) :
    j.transition = some x ↔ (groupClips clips gaps xs).table.get? (j.right, .start) = some x ∨
      (groupClips clips gaps xs).table.get? (j.right, .start) = none ∧
        (groupClips clips gaps xs).table.get? (j.left, .finish) = some x := by
  obtain ⟨hright, hclaim⟩ := claim?_of_mem_joins hj
  rw [hclaim, hright, TransitionTable.claim?, Option.orElse_eq_orElse, Option.orElse_eq_or,
    Option.or_eq_some_iff]

/-- The transition of a join has its place there. -/
theorem place?_of_join (hj : j ∈ (groupClips clips gaps xs).joins) (hx : j.transition = some x) :
    x.place? (clips.map (·.id)) = some (j.clipAt x.side, x.side) := by
  have hentry {place : Junction} (h : (groupClips clips gaps xs).table.get? place = some x) :
      x.place? (clips.map (·.id)) = some place :=
    (place?_of_mem_transitionTable (get?_table.1 h)).2
  rcases (join_takes hj).1 hx with h | ⟨-, h⟩ <;>
    rw [hentry h, Transition.side_of_place? (hentry h)] <;> rfl

/-! ## Fades at the edges -/

theorem mem_edgeFades {i : Nat} : (i, x) ∈ (groupClips clips gaps xs).edgeFades ↔
    ((i, x.side), x) ∈ transitionTable (clips.map (·.id)) xs ∧
      ∀ j ∈ (groupClips clips gaps xs).joins, j.clipAt x.side ≠ i := by
  have hfree (side : Side) : (groupClips clips gaps xs).consumes (i, side) = false ↔
      ∀ j ∈ (groupClips clips gaps xs).joins, j.clipAt side ≠ i := by
    rw [← Bool.not_eq_true, consumes_iff]
    simp
  simp only [Grouping.edgeFades, List.mem_map, List.mem_filter, Bool.not_eq_true', Prod.mk.injEq]
  constructor
  · rintro ⟨⟨⟨k, side⟩, y⟩, ⟨hmem, hnot⟩, rfl, rfl⟩
    obtain rfl : y.side = side := Transition.side_of_place? (place?_of_mem_transitionTable hmem).2
    exact ⟨hmem, (hfree _).1 hnot⟩
  · rintro ⟨hmem, hnot⟩
    exact ⟨_, ⟨hmem, (hfree _).2 hnot⟩, rfl, rfl⟩

/-- A side of a clip fades once. -/
theorem nodup_edgeFades :
    ((groupClips clips gaps xs).edgeFades.map fun e => (e.1, e.2.side)).Nodup := by
  have hsides : (groupClips clips gaps xs).edgeFades.map (fun e => (e.1, e.2.side)) =
      ((groupClips clips gaps xs).table.filter fun e =>
        !(groupClips clips gaps xs).consumes e.1).map (·.1) := by
    rw [Grouping.edgeFades, List.map_map]
    refine List.map_congr_left fun e he => ?_
    have hplace := (place?_of_mem_transitionTable (List.mem_of_mem_filter he)).2
    exact Prod.ext rfl (Transition.side_of_place? hplace)
  rw [hsides]
  exact (List.filter_sublist.map _).nodup (transitionTable_keys _ _)

end Sides

/-! ## Fates -/

/-- Whether a transition that is listed after some others has no effect: it is none, of no
clip, or another one has its place. -/
def Transition.IsIgnored (clips : List (Clip α ι)) (before : List (Transition α ι))
    (x : Transition α ι) : Prop :=
  x.kind = .none ∨ x.clipId ∉ clips.map (·.id) ∨
    ∃ y ∈ before, y.kind ≠ .none ∧ y.clipId = x.clipId ∧ y.side = x.side

inductive Fate where
  | ignored
  | joined
  | shadowed
  | fading

/-- What becomes of a transition that is listed between some others. -/
inductive HasFate (clips : List (Clip α ι)) (gaps : List (Gap α)) (before : List (Transition α ι))
    (x : Transition α ι) (after : List (Transition α ι)) : Fate → Prop where
  /-- The picture is the same without it. -/
  | ignored (h : x.IsIgnored clips before)
      (same : groupClips clips gaps (before ++ x :: after) = groupClips clips gaps (before ++ after)) :
      HasFate clips gaps before x after .ignored
  /-- It is the transition of one join, at its own side of its clip. -/
  | joined {j : Join α ι} (h : ¬ x.IsIgnored clips before)
      (clip : (clips.map (·.id))[j.clipAt x.side]? = some x.clipId)
      (join : Sole (groupClips clips gaps (before ++ x :: after)).joins (·.transition = some x) j)
      (fade : ∀ e ∈ (groupClips clips gaps (before ++ x :: after)).edgeFades, e.2 ≠ x) :
      HasFate clips gaps before x after .joined
  /-- The join at its end side takes the transition into the next clip. -/
  | shadowed {j : Join α ι} {y : Transition α ι} (h : ¬ x.IsIgnored clips before)
      (side : x.side = .finish) (clip : (clips.map (·.id))[j.left]? = some x.clipId)
      (at_join : j ∈ (groupClips clips gaps (before ++ x :: after)).joins)
      (taken : j.transition = some y) (start : y.side = .start)
      (next : (clips.map (·.id))[j.left + 1]? = some y.clipId)
      (join : ∀ k ∈ (groupClips clips gaps (before ++ x :: after)).joins, k.transition ≠ some x)
      (fade : ∀ e ∈ (groupClips clips gaps (before ++ x :: after)).edgeFades, e.2 ≠ x) :
      HasFate clips gaps before x after .shadowed
  /-- It fades its clip alone. -/
  | fading {i : Nat} (h : ¬ x.IsIgnored clips before)
      (clip : (clips.map (·.id))[i]? = some x.clipId)
      (join : ∀ k ∈ (groupClips clips gaps (before ++ x :: after)).joins, k.transition ≠ some x)
      (fade : Sole (groupClips clips gaps (before ++ x :: after)).edgeFades (·.2 = x) (i, x)) :
      HasFate clips gaps before x after .fading

section Fates

variable {before after : List (Transition α ι)} {x : Transition α ι}

theorem HasFate.unique {f f' : Fate} (hf : HasFate clips gaps before x after f)
    (hf' : HasFate clips gaps before x after f') : f = f' := by
  cases hf with
  | ignored h =>
    cases hf' with
    | ignored => rfl
    | joined hn | shadowed hn | fading hn => exact absurd h hn
  | joined hn _ join fade =>
    cases hf' with
    | ignored h => exact absurd h hn
    | joined => rfl
    | shadowed _ _ _ _ _ _ _ none | fading _ _ none => exact absurd join.mem.2 (none _ join.mem.1)
  | shadowed hn _ _ _ _ _ _ none fade =>
    cases hf' with
    | ignored h => exact absurd h hn
    | joined _ _ join => exact absurd join.mem.2 (none _ join.mem.1)
    | shadowed => rfl
    | fading _ _ _ sole => exact absurd sole.mem.2 (fade _ sole.mem.1)
  | fading hn _ none sole =>
    cases hf' with
    | ignored h => exact absurd h hn
    | joined _ _ join => exact absurd join.mem.2 (none _ join.mem.1)
    | shadowed _ _ _ _ _ _ _ _ fade => exact absurd sole.mem.2 (fade _ sole.mem.1)
    | fading => rfl

variable [LawfulBEq ι]

omit [Scalar α] in
theorem isIgnored_iff (hids : (clips.map (·.id)).Nodup) : x.IsIgnored clips before ↔
    ∀ place, x.place? (clips.map (·.id)) = some place →
      ∃ y ∈ before, y.place? (clips.map (·.id)) = some place := by
  constructor
  · rintro h place hplace
    obtain ⟨hkind, hclip, hside⟩ := (Transition.place?_eq_some hids).1 hplace
    rcases h with hnone | hno | ⟨y, hy, hykind, hyclip, hyside⟩
    · exact absurd hnone hkind
    · exact absurd (List.mem_of_getElem? hclip) hno
    · exact ⟨y, hy, (Transition.place?_eq_some hids).2
        ⟨hykind, hyclip ▸ hclip, hyside.trans hside⟩⟩
  · intro h
    cases hplace : x.place? (clips.map (·.id)) with
    | none => exact (Transition.place?_eq_none.1 hplace).imp_right .inl
    | some place =>
      obtain ⟨y, hy, hyplace⟩ := h place hplace
      obtain ⟨-, hclip, hside⟩ := (Transition.place?_eq_some hids).1 hplace
      obtain ⟨hkind, hyclip, hyside⟩ := (Transition.place?_eq_some hids).1 hyplace
      exact .inr (.inr ⟨y, hy, hkind, Option.some.inj (hyclip.symm.trans hclip),
        hyside.trans hside.symm⟩)

omit [Scalar α] in
variable (after) in
/-- A transition that is not ignored has its entry. -/
theorem exists_entry_of_not_ignored (hids : (clips.map (·.id)).Nodup)
    (h : ¬ x.IsIgnored clips before) :
    ∃ i, (clips.map (·.id))[i]? = some x.clipId ∧
      ((i, x.side), x) ∈ transitionTable (clips.map (·.id)) (before ++ x :: after) := by
  rw [isIgnored_iff hids] at h
  push Not at h
  obtain ⟨⟨i, side⟩, hplace, hfirst⟩ := h
  obtain ⟨-, hclip, rfl⟩ := (Transition.place?_eq_some hids).1 hplace
  exact ⟨i, hclip, mem_transitionTable_of_first hplace hfirst⟩

omit [LawfulBEq ι] in
/-- A transition that fades is at no join, so that none takes it. -/
theorem join_ne_edgeFade {j : Join α ι} {e : Nat × Transition α ι}
    (hj : j ∈ (groupClips clips gaps xs).joins) (he : e ∈ (groupClips clips gaps xs).edgeFades) :
    j.transition ≠ some e.2 := fun htrans => by
  obtain ⟨i, y⟩ := e
  obtain ⟨hentry, hnot⟩ := mem_edgeFades.1 he
  have hplace := (place?_of_mem_transitionTable hentry).2
  rw [place?_of_join hj htrans, Option.some.injEq, Prod.mk.injEq] at hplace
  exact hnot j hj hplace.1

section Entry

/-! A transition with an entry, which is at its place or nowhere. -/

variable {i : Nat} {j : Join α ι}
  (hentry : ((i, x.side), x) ∈ transitionTable (clips.map (·.id)) xs)
include hentry

omit [LawfulBEq ι] in
theorem clipAt_of_takes (hj : j ∈ (groupClips clips gaps xs).joins) (hx : j.transition = some x) :
    j.clipAt x.side = i := by
  have hplace := (place?_of_mem_transitionTable hentry).2
  rw [place?_of_join hj hx, Option.some.injEq, Prod.mk.injEq] at hplace
  exact hplace.1

omit [LawfulBEq ι] in
theorem index_of_fades {e : Nat × Transition α ι} (he : e ∈ (groupClips clips gaps xs).edgeFades)
    (hx : e.2 = x) : e = (i, x) := by
  obtain ⟨k, y⟩ := e
  subst hx
  have hplace := (place?_of_mem_transitionTable (mem_edgeFades.1 he).1).2
  rw [(place?_of_mem_transitionTable hentry).2, Option.some.injEq, Prod.mk.injEq] at hplace
  rw [hplace.1]

omit [LawfulBEq ι] in
/-- At a join it is taken, unless a transition into the next clip is. -/
theorem takes_or_shadows (hj : j ∈ (groupClips clips gaps xs).joins) (hat : j.clipAt x.side = i) :
    j.transition = some x ∨ x.side = .finish ∧ ∃ y, j.transition = some y ∧
      y.place? (clips.map (·.id)) = some (j.left + 1, .start) := by
  rw [← hat] at hentry
  cases hside : x.side with
  | start =>
    rw [hside] at hentry
    exact .inl ((join_takes hj).2 (.inl (get?_table.2 hentry)))
  | finish =>
    rw [hside] at hentry
    cases hnext : (groupClips clips gaps xs).table.get? (j.right, .start) with
    | none => exact .inl ((join_takes hj).2 (.inr ⟨hnext, get?_table.2 hentry⟩))
    | some y =>
      refine .inr ⟨rfl, y, (join_takes hj).2 (.inl hnext), ?_⟩
      rw [← (claim?_of_mem_joins hj).1]
      exact (place?_of_mem_transitionTable (get?_table.1 hnext)).2

end Entry

theorem exists_fate_at_join (hids : (clips.map (·.id)).Nodup) (h : ¬ x.IsIgnored clips before)
    {j : Join α ι} (hj : j ∈ (groupClips clips gaps (before ++ x :: after)).joins)
    (hclip : (clips.map (·.id))[j.clipAt x.side]? = some x.clipId)
    (hentry : ((j.clipAt x.side, x.side), x) ∈
      transitionTable (clips.map (·.id)) (before ++ x :: after)) :
    ∃ f, HasFate clips gaps before x after f := by
  have hfade : ∀ e ∈ (groupClips clips gaps (before ++ x :: after)).edgeFades, e.2 ≠ x := by
    intro e he hx
    rw [index_of_fades hentry he hx] at he
    exact (mem_edgeFades.1 he).2 j hj rfl
  by_cases hx : j.transition = some x
  · exact ⟨.joined, .joined h hclip (Sole.of_nodup (nodup_clipAt x.side) hj hx
      fun k hk hkx => clipAt_of_takes hentry hk hkx) hfade⟩
  · obtain ⟨hside, y, hy, hplace⟩ := (takes_or_shadows hentry hj rfl).resolve_left hx
    obtain ⟨-, hnext, hstart⟩ := (Transition.place?_eq_some hids).1 hplace
    refine ⟨.shadowed, .shadowed h hside ?_ hj hy hstart hnext (fun k hk hkx => hx ?_) hfade⟩
    · rwa [hside] at hclip
    · have hat := clipAt_of_takes hentry hk hkx
      rwa [← List.inj_on_of_nodup_map (nodup_clipAt x.side) hk hj hat]

omit [LawfulBEq ι] in
theorem fading_of_free (h : ¬ x.IsIgnored clips before) {i : Nat}
    (hclip : (clips.map (·.id))[i]? = some x.clipId)
    (hentry : ((i, x.side), x) ∈ transitionTable (clips.map (·.id)) (before ++ x :: after))
    (hfree : ∀ j ∈ (groupClips clips gaps (before ++ x :: after)).joins, j.clipAt x.side ≠ i) :
    HasFate clips gaps before x after .fading := by
  refine .fading h hclip (fun k hk hkx => hfree k hk (clipAt_of_takes hentry hk hkx)) ?_
  refine Sole.of_nodup nodup_edgeFades (mem_edgeFades.2 ⟨hentry, hfree⟩) rfl fun e he hx => ?_
  rw [index_of_fades hentry he hx]

variable (before after x) in
theorem exists_fate (hids : (clips.map (·.id)).Nodup) (gaps : List (Gap α)) :
    ∃ f, HasFate clips gaps before x after f := by
  by_cases h : x.IsIgnored clips before
  · refine ⟨.ignored, .ignored h ?_⟩
    rw [groupClips, groupClips, transitionTable_of_ignored ((isIgnored_iff hids).1 h)]
  · obtain ⟨i, hclip, hentry⟩ := exists_entry_of_not_ignored after hids h
    by_cases hjoin : ∃ j ∈ (groupClips clips gaps (before ++ x :: after)).joins, j.clipAt x.side = i
    · obtain ⟨j, hj, rfl⟩ := hjoin
      exact exists_fate_at_join hids h hj hclip hentry
    · exact ⟨.fading, fading_of_free h hclip hentry fun j hj hat => hjoin ⟨j, hj, hat⟩⟩

theorem fading_iff (hids : (clips.map (·.id)).Nodup) :
    HasFate clips gaps before x after .fading ↔ ¬ x.IsIgnored clips before ∧
      ∃ i, (clips.map (·.id))[i]? = some x.clipId ∧
        (groupClips clips gaps (before ++ x :: after)).IsEdge i x.side := by
  have hlt {i : Nat} (hclip : (clips.map (·.id))[i]? = some x.clipId) : i < clips.length := by
    simpa using (List.getElem?_eq_some_iff.1 hclip).1
  constructor
  · rintro (_ | _ | _ | ⟨h, hclip, -, hfade⟩)
    exact ⟨h, _, hclip, (isEdge_iff (hlt hclip) _).2 (mem_edgeFades.1 hfade.mem.1).2⟩
  · rintro ⟨h, i, hclip, hedge⟩
    obtain ⟨k, hclip', hentry⟩ := exists_entry_of_not_ignored after hids h
    have hik : i = k := by
      rw [← hclip'] at hclip
      exact (List.getElem?_inj (by simpa using hlt (hclip.trans hclip')) hids).1 hclip
    exact fading_of_free h hclip (hik ▸ hentry) ((isEdge_iff (hlt hclip) _).1 hedge)

/-- **Each transition has one fate**, whatever gaps there are. It fades its clip alone just
when it is at an end of a run and not ignored, and then no join takes it. -/
theorem groupClips_one_fate (hids : (clips.map (·.id)).Nodup) (gaps : List (Gap α))
    (before : List (Transition α ι)) (x : Transition α ι) (after : List (Transition α ι)) :
    (∃! f, HasFate clips gaps before x after f) ∧
    (HasFate clips gaps before x after .fading ↔ ¬ x.IsIgnored clips before ∧
      ∃ i, (clips.map (·.id))[i]? = some x.clipId ∧
        (groupClips clips gaps (before ++ x :: after)).IsEdge i x.side) ∧
    ∀ j ∈ (groupClips clips gaps (before ++ x :: after)).joins,
      ∀ e ∈ (groupClips clips gaps (before ++ x :: after)).edgeFades, j.transition ≠ some e.2 := by
  obtain ⟨f, hf⟩ := exists_fate before after x hids gaps
  exact ⟨⟨f, hf, fun _ hf' => hf'.unique hf⟩, fading_iff hids,
    fun _ hj _ he => join_ne_edgeFade hj he⟩

/-- A transition into the clip after the gap of `shots`. -/
def entrance : Transition Rat := ⟨"y", "c", .fade, 1, .start⟩

theorem shots_fading :
    (shots.map (·.id)).Nodup ∧
      HasFate shots (detectGaps shots) [dissolve] entrance [] .fading := by
  have hids : (shots.map (·.id)).Nodup := by decide
  refine ⟨hids, (groupClips_one_fate hids (detectGaps shots) [dissolve] entrance []).2.1.2 ?_⟩
  refine ⟨by simp [Transition.IsIgnored, shots, shot, dissolve, entrance], 2, rfl, ?_⟩
  exact ⟨Run.single 2 2, List.mem_of_getElem? (i := 2) (by cbv), rfl⟩

end Fates

end Montage
