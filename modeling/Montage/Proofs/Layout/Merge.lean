/-
Neighbours merged, and a lane one of whose clips is cut, in exact arithmetic.

A walk along a lane in which what two clips come to joins into what a third one does comes to
the same, merged, with the two in the place of the third (`mergeWith_laidFrom_cut`): the two
leave no gap between them, and end where the third does. The parts of a picture are merged
already, since of two that meet one is a gap (`isChain_pieces`); so they are the merged walk along
the lane, its clips told apart by their lengths alone (`mergeWith_outline`).
-/
import Montage.Proofs.Layout.Strip

namespace Montage

/-! ## Merging -/

section Merge

variable {β : Type} {join? : β → β → Option β} {x y z : β}

/-- Things with one more in front, as one with the first of them if the two join. -/
def pushWith (join? : β → β → Option β) (x : β) : List β → List β
  | [] => [x]
  | y :: rest =>
    match join? x y with
    | some z => z :: rest
    | none => x :: y :: rest

/-- Things, those next to one another joined where they can be. -/
def mergeWith (join? : β → β → Option β) (xs : List β) : List β := xs.foldr (pushWith join?) []

/-- Of three things the first two of which join, the outer ones join if and as the last two do. -/
structure Coherent (join? : β → β → Option β) : Prop where
  apart : ∀ {x y z w}, join? x y = some z → join? y w = none → join? z w = none
  assoc : ∀ {x y z w v}, join? x y = some z → join? y w = some v →
    ∃ u, join? x v = some u ∧ join? z w = some u

theorem Coherent.pushWith_pushWith (hj : Coherent join?) (h : join? x y = some z) (rest : List β) :
    pushWith join? x (pushWith join? y rest) = pushWith join? z rest := by
  cases rest with
  | nil => simp [pushWith, h]
  | cons w rest =>
    cases hyw : join? y w with
    | none => simp [pushWith, hyw, h, hj.apart h hyw]
    | some v =>
      obtain ⟨u, hxv, hzw⟩ := hj.assoc h hyw
      simp [pushWith, hyw, hxv, hzw]

theorem mergeWith_append (xs ys : List β) :
    mergeWith join? (xs ++ ys) = xs.foldr (pushWith join?) (mergeWith join? ys) :=
  List.foldr_append

end Merge

/-! ## A clip cut in two -/

section Walk

variable {α β γ δ ι κ : Type} [Scalar α] [Timed β α ι] [Timed δ α κ] {blank : α → List γ}

/-- A walk looks at the starts, the lengths and what the things come to alone. -/
theorem laidFrom_congr {seen : β → List γ} {seen' : δ → List γ} {xs : List β} {ys : List δ}
    (h : List.Forall₂ (fun b d => Timed.start b = Timed.start d ∧
      Timed.length b = Timed.length d ∧ seen b = seen' d) xs ys) :
    ∀ {i j : Nat} {reached : α}, laidFrom blank (fun _ => seen) i reached xs =
      laidFrom blank (fun _ => seen') j reached ys := by
  induction h with
  | nil => exact rfl
  | cons hb _ ih =>
    intro i j reached
    obtain ⟨hstart, hlength, hseen⟩ := hb
    rw [laidFrom, laidFrom, hstart, hlength, hseen, ih]

end Walk

section Cut

variable {β γ ι : Type} [Timed β Rat ι] {join? : γ → γ → Option γ} {blank : Rat → List γ}
  {seen : β → γ} {head tail whole : β}

/-- A thing comes to the same as two that follow one another in its span, if what it comes to is what
theirs join into. -/
theorem mergeWith_laidFrom_cut (hj : Coherent join?)
    (hstart : Timed.start head = Timed.start whole)
    (hmeet : Timed.start tail = Timed.start head + Timed.length head)
    (hend : Timed.start tail + Timed.length tail = Timed.start whole + Timed.length whole)
    (hlong : 0 ≤ Timed.length tail) (hjoin : join? (seen head) (seen tail) = some (seen whole))
    (post : List β) : ∀ (pre : List β) {i j : Nat} {reached : Rat},
      mergeWith join? (laidFrom blank (fun _ b => [seen b]) i reached (pre ++ head :: tail :: post)) =
        mergeWith join? (laidFrom blank (fun _ b => [seen b]) j reached (pre ++ whole :: post))
  | [], i, j, reached => by
    have hgap : ¬ max reached (Timed.start head + Timed.length head) + gapTolerance <
        Timed.start tail := by
      have hle := le_max_right reached (Timed.start head + Timed.length head)
      rw [gapTolerance_eq]
      linarith
    have hreached : max (max reached (Timed.start head + Timed.length head))
        (Timed.start tail + Timed.length tail) =
          max reached (Timed.start whole + Timed.length whole) := by
      have hle : Timed.start head + Timed.length head ≤ Timed.start tail + Timed.length tail := by
        linarith
      rw [max_assoc, max_eq_right hle, hend]
    have hpost : laidFrom blank (fun _ b => [seen b]) (i + 1 + 1)
        (max reached (Timed.start whole + Timed.length whole)) post =
          laidFrom blank (fun _ b => [seen b]) (j + 1)
            (max reached (Timed.start whole + Timed.length whole)) post :=
      laidFrom_congr (List.forall₂_same.2 fun _ _ => ⟨rfl, rfl, rfl⟩)
    rw [List.nil_append, List.nil_append, laidFrom, laidFrom, laidFrom, Scalar.larger_eq_max,
      Scalar.larger_eq_max, Scalar.larger_eq_max, if_neg hgap, hreached, hpost, hstart]
    refine (mergeWith_append _ _).trans (.trans ?_ (mergeWith_append _ _).symm)
    exact congrArg (fun rest => List.foldr (pushWith join?) rest _) (hj.pushWith_pushWith hjoin _)
  | b :: pre, i, j, reached => by
    rw [List.cons_append, List.cons_append, laidFrom, laidFrom, mergeWith_append, mergeWith_append,
      mergeWith_append, mergeWith_append,
      mergeWith_laidFrom_cut hj hstart hmeet hend hlong hjoin post pre]

end Cut

/-! ## The outline of a picture -/

section Pieces

variable {α ι : Type}

/-- Whether a part of the picture is a gap. -/
def Piece.isGap (p : Piece α ι) : Bool := p.kind == .gap

@[simp] theorem Piece.isGap_gap (d : α) : (Piece.gap d : Piece α ι).isGap = true := rfl

@[simp] theorem Piece.isGap_run (r : Run α ι) : (Piece.run r).isGap = false := by
  unfold isGap kind
  dsimp only
  split <;> rfl

/-- Of two parts of a picture one is a gap. -/
def Piece.Parted (p q : Piece α ι) : Prop := p.isGap = true ∨ q.isGap = true

variable [Scalar α] {gaps : List (Gap α)} {table : TransitionTable α ι}

theorem isChain_piecesFrom : ∀ (rest : List α) (growing : Run α ι) (index : Nat) (left : α),
    (piecesFrom gaps table growing index left rest).IsChain Piece.Parted
  | [], _, _, _ => List.isChain_singleton _
  | right :: rest, growing, index, left => by
    rw [piecesFrom]
    split
    · refine List.isChain_cons_cons.2 ⟨.inr rfl, List.isChain_cons.2 ⟨fun _ _ => .inl rfl, ?_⟩⟩
      exact isChain_piecesFrom rest _ _ _
    · exact isChain_piecesFrom rest _ _ _

/-- Of two parts of a picture that meet one is a gap. -/
theorem isChain_pieces (lengths : List α) :
    (pieces gaps table lengths : List (Piece α ι)).IsChain Piece.Parted := by
  cases lengths with
  | nil => exact List.isChain_nil
  | cons first rest =>
    rw [pieces]
    cases gapBefore? gaps 0 with
    | none => exact isChain_piecesFrom rest _ _ _
    | some d => exact List.isChain_cons.2 ⟨fun _ _ => .inl rfl, isChain_piecesFrom rest _ _ _⟩

end Pieces

/-- What is seen is joined with what is seen after it; `true` marks a gap. -/
def joinSeen? : Bool × Rat → Bool × Rat → Option (Bool × Rat)
  | (false, d), (false, d') => some (false, d + d')
  | _, _ => none

theorem joinSeen?_coherent : Coherent joinSeen? where
  apart {x y z w} h h' := by
    obtain ⟨a, d⟩ := x
    obtain ⟨b, d'⟩ := y
    obtain ⟨e, d''⟩ := w
    cases a <;> cases b <;> cases e <;> simp_all [joinSeen?]
  assoc {x y z w v} h h' := by
    obtain ⟨a, d⟩ := x
    obtain ⟨b, d'⟩ := y
    obtain ⟨e, d''⟩ := w
    cases a <;> cases b <;> cases e <;> simp only [joinSeen?, reduceCtorEq, Option.some.injEq] at h h'
    subst h h'
    exact ⟨_, rfl, by simp only [joinSeen?, add_assoc]⟩

/-- The walk along a lane in which gaps and clips are told apart by their lengths alone. -/
def outlineFrom {ι : Type} (reached : Rat) (lane : List (Clip Rat ι)) : List (Bool × Rat) :=
  laidFrom (fun d => [(true, d)]) (fun _ c => [(false, c.visibleDuration)]) 0 reached lane

section Outline

variable {ι : Type} {lane : List (Clip Rat ι)}

theorem foldr_pushWith_seen {rest : List (Bool × Rat)} (hrest : ∀ x ∈ rest.head?, x.1 = true) :
    ∀ {lengths : List Rat}, lengths ≠ [] →
      (lengths.map fun d => (false, d)).foldr (pushWith joinSeen?) rest =
        (false, lengths.sum) :: rest
  | [], h => absurd rfl h
  | [d], _ => by
    cases rest with
    | nil => simp [pushWith]
    | cons x rest =>
      obtain ⟨gap, d'⟩ := x
      obtain rfl : gap = true := hrest _ rfl
      simp [pushWith, joinSeen?]
  | d :: d' :: lengths, _ => by
    rw [List.map_cons, List.foldr_cons, foldr_pushWith_seen hrest (List.cons_ne_nil _ _), List.sum_cons]
    rfl

/-- Opened up and merged, the parts of a picture of which one in two is a gap are as they were. -/
theorem mergeWith_opened {ps : List (Piece Rat ι)} (hparted : ps.IsChain Piece.Parted)
    (hruns : ∀ r, .run r ∈ ps → r.clips ≠ [] ∧ r.duration = (r.clips.map (lengthAt lane)).sum) :
    mergeWith joinSeen? (ps.flatMap
      (Piece.opened (fun d => [(true, d)]) fun i => [(false, lengthAt lane i)])) =
        ps.map fun p => (p.isGap, p.duration) := by
  induction ps with
  | nil => rfl
  | cons p ps ih =>
    obtain ⟨hhead, hparted⟩ := List.isChain_cons.1 hparted
    rw [List.flatMap_cons, mergeWith_append, ih hparted fun r hr => hruns r (List.mem_cons_of_mem _ hr),
      List.map_cons]
    cases p with
    | gap d =>
      cases ps <;> rfl
    | run r =>
      obtain ⟨hne, hduration⟩ := hruns r (List.mem_cons_self ..)
      have hopened : r.clips.flatMap (fun i => [(false, lengthAt lane i)]) =
          (r.clips.map (lengthAt lane)).map fun d => (false, d) := by
        rw [List.map_map]
        exact List.map_eq_flatMap.symm
      rw [Piece.opened, hopened, foldr_pushWith_seen ?_ (by simpa using hne), Piece.duration, hduration,
        Piece.isGap_run]
      intro x hx
      rw [List.head?_map, Option.mem_def, Option.map_eq_some_iff] at hx
      obtain ⟨q, hq, rfl⟩ := hx
      exact (hhead q hq).resolve_left (by simp)

/-- Where no transition has an effect, the parts of a picture are the merged walk along its lane. -/
theorem mergeWith_outline [BEq ι] {transitions : List (Transition Rat ι)}
    (hplain : ∀ x ∈ transitions, x.place? (lane.map (·.id)) = none) :
    mergeWith joinSeen? (outlineFrom 0 lane) =
      (groupClips lane (detectGaps lane) transitions).pieces.map fun p => (p.isGap, p.duration) := by
  have hopened : (groupClips lane (detectGaps lane) []).pieces.flatMap
      (Piece.opened (fun d => [(true, d)]) fun i => [(false, lengthAt lane i)]) =
        outlineFrom 0 lane := by
    rw [← Scalar.zero_eq]
    exact opened_groupClips fun i c hc => by rw [lengthAt_eq hc]
  rw [groupClips_of_ineffective _ hplain, ← hopened]
  refine mergeWith_opened (isChain_pieces _) fun r hr => ⟨?_, duration_of_mem_pieces hr⟩
  exact (linked_of_mem_pieces hr).nonempty

end Outline

end Montage
