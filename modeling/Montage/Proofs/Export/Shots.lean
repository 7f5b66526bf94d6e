/-
What the picture of an export plays, shot by shot.

A shot is read off a node that is made from no other node: a blank, or a medium from a time in it on,
or a still of it (`Compiled.shots`). The shots are the walk along the lane in which each clip
is one shot (`compile_shots`); the parts of the export are the walk in which a clip is its length,
merged, and the export lasts as long as they do together (`compile_outline`).
-/
import Montage.Proofs.Edit.Links
import Montage.Proofs.Export.Leaves
import Montage.Proofs.Layout.Merge

namespace Montage

/-- What is played for some time: nothing, a picture that stands still, or a medium from a time
in it on. -/
inductive Shot (α : Type) where
  | blank (length : α)
  | still (mediaId : String) (length : α)
  | moving (mediaId : String) (start length : α)
deriving DecidableEq, Repr

/-- A shot and the one after it as one, if they are of one medium and the second goes on where the
first ends. -/
def Shot.join? : Shot Rat → Shot Rat → Option (Shot Rat)
  | .still m d, .still m' d' => if m = m' then some (.still m (d + d')) else none
  | .moving m s d, .moving m' s' d' =>
    if m = m' ∧ s' = s + d then some (.moving m s (d + d')) else none
  | _, _ => none

theorem Shot.join?_eq_some {x y z : Shot Rat} : x.join? y = some z ↔
    (∃ m d d', x = .still m d ∧ y = .still m d' ∧ z = .still m (d + d')) ∨
      ∃ m s d d', x = .moving m s d ∧ y = .moving m (s + d) d' ∧ z = .moving m s (d + d') := by
  cases x <;> cases y <;> simp [join?, and_assoc] <;> grind

theorem Shot.join?_coherent : Coherent Shot.join? where
  apart {x y z w} h h' := by
    rcases join?_eq_some.1 h with ⟨m, d, d', rfl, rfl, rfl⟩ | ⟨m, s, d, d', rfl, rfl, rfl⟩
    · cases w <;> simp_all [join?]
    · cases w <;> simp_all [join?, add_assoc]
  assoc {x y z w v} h h' := by
    rcases join?_eq_some.1 h with ⟨m, d, d', rfl, rfl, rfl⟩ | ⟨m, s, d, d', rfl, rfl, rfl⟩
    · rcases join?_eq_some.1 h' with ⟨m, d, d'', h₁, rfl, rfl⟩ | ⟨m, s, d, d'', h₁, rfl, rfl⟩ <;>
        cases h₁
      exact ⟨.still m (d + (d' + d'')), by simp [join?], by simp [join?, add_assoc]⟩
    · rcases join?_eq_some.1 h' with ⟨m, d, d'', h₁, rfl, rfl⟩ | ⟨m, s, d, d'', h₁, rfl, rfl⟩ <;>
        cases h₁
      exact ⟨.moving m s (d + (d' + d'')), by simp [join?], by simp [join?, add_assoc]⟩

section Shots

variable {α : Type} [Scalar α]

/-- The shot of a clip. -/
def Clip.shot (c : Clip α) : Shot α :=
  if c.kind = .image then .still c.mediaId c.visibleDuration
  else .moving c.mediaId c.trimIn c.visibleDuration

/-- The shot that a node plays, by the media of the inputs. -/
def Node.shot? (media? : Int → Option String) (n : Node (Filter α)) : Option (Shot α) :=
  match n.inputs, n.filters with
  | [], .colorSource _ _ _ d _ :: _ => some (.blank d)
  | [.source i .video], .cutSpan start d :: _ => (media? i).map (.moving · start d)
  | [.source i .video], .holdFrame :: .cutLength d :: _ => (media? i).map (.still · d)
  | _, _ => none

namespace Compiled

/-- The medium of the clip that an input is handed over for. -/
def mediaOf? (c : Compiled α) (t : Timeline α) : Int → Option String
  | .ofNat i => (c.inputs[i]?).bind fun input => (t.findClip input.clipId).map (·.mediaId)
  | .negSucc _ => none

/-- The shots of the picture, in the order of the nodes that play them. -/
def shots (c : Compiled α) (t : Timeline α) : List (Shot α) :=
  c.graph.origins.filterMap (Node.shot? (c.mediaOf? t))

/-- The parts of the picture, gaps told apart from the others, with their lengths. -/
def outline (c : Compiled α) : List (Bool × α) := c.segments.map fun x => (x.kind == .gap, x.duration)

end Compiled

/-! ## Shots of nodes -/

omit [Scalar α] in
theorem Piece.filterMap_opened {γ δ ι : Type} (f : γ → Option δ) (blank : α → List γ)
    (seen : Nat → List γ) (p : Piece α ι) : (p.opened blank seen).filterMap f =
      p.opened (fun d => (blank d).filterMap f) fun i => (seen i).filterMap f := by
  cases p with
  | gap d => rfl
  | run r => exact List.filterMap_flatMap ..

namespace Scene

variable {s : Scene α} {lane : List (Clip α)} {grouping : Grouping α} {media? : Int → Option String}
  {i : Nat} {clip : Clip α}

theorem shot?_pictureNode (h : media? i = some clip.mediaId) (fades : List (Transition α)) :
    (s.pictureNode i clip fades).shot? media? = some clip.shot := by
  unfold pictureNode pictureFilters cutFilters Clip.shot
  split <;> simp [Node.shot?, h]

theorem shot?_soundNode (fades : List (Transition α)) :
    (s.soundNode i clip fades).shot? media? = none := by
  unfold soundNode
  split <;> rfl

theorem filterMap_laneNodes (hclip : lane[i]? = some clip) (h : media? i = some clip.mediaId) :
    (s.laneNodes lane grouping i).filterMap (Node.shot? media?) = [clip.shot] := by
  simp only [laneNodes, hclip, List.filterMap_cons, shot?_pictureNode h, shot?_soundNode,
    List.filterMap_nil]

end Scene

/-! ## Shots of an export -/

variable {t : Timeline α} {library : Library α} {settings : ExportSettings} {font : String}
  {c : Compiled α}

/-- The shots of an export are the walk along its lane, a shot a clip. -/
theorem compile_shots (hl : t.Linked) (h : compile t library settings font = .ok c) :
    ∃ lane, t.lane = .ok lane ∧
      c.shots t = laidFrom (fun d => [.blank d]) (fun _ clip => [clip.shot]) 0 0.0 lane := by
  obtain ⟨lane, hlane, -, hinputs, horigins⟩ := compile_origins h
  have hmedia : ∀ (i : Nat) (clip : Clip α), lane[i]? = some clip →
      c.mediaOf? t i = some clip.mediaId := fun i clip hclip => by
    obtain ⟨hi, rfl⟩ := List.getElem?_eq_some_iff.1 hclip
    have hfind : t.findClip lane[i].id = some lane[i] :=
      find?_key_eq_some hl.clipIds (mem_allClips_of_lane hlane (List.getElem_mem hi)) rfl
    show (c.inputs[i]?).bind _ = _
    rw [hinputs, List.getElem?_append_left (by simpa using hi)]
    simp [hclip, Scene.input, hfind]
  have htracks : (((Scene.audible c.duration t.heardClips).zipIdx lane.length).map
      (Scene.ofSettings t library settings).trackNode).filterMap (Node.shot? (c.mediaOf? t)) = [] :=
    List.filterMap_eq_nil_iff.2 <| List.forall_mem_map.2 fun _ _ => rfl
  refine ⟨lane, hlane, ?_⟩
  rw [Compiled.shots, horigins, List.filterMap_append, htracks, List.append_nil, List.filterMap_flatMap]
  simp only [Piece.filterMap_opened]
  exact opened_groupClips fun i clip hclip => Scene.filterMap_laneNodes hclip (hmedia i clip hclip)

end Shots

/-! ## The parts of an export -/

theorem Scene.addPieces_outline {α : Type} [Scalar α] (s : Scene α) (lane : List (Clip α))
    (grouping : Grouping α) (g : Draft α) (ps : List (Piece α)) :
    ((s.addPieces lane grouping g ps).2.map fun x => (x.kind == .gap, x.duration)) =
      ps.map fun p => (p.isGap, p.duration) := by
  induction ps generalizing g with
  | nil => rfl
  | cons p ps ih =>
    cases p <;> simp only [addPieces, List.map_cons, ih] <;> rfl

variable {t : Timeline Rat} {library : Library Rat} {settings : ExportSettings} {font : String}
  {c : Compiled Rat}

/-- Where no transition has an effect, the parts of an export are the walk along its lane, merged,
and the export lasts as long as they do together. -/
theorem compile_outline {lane : List (Clip Rat)} (hlane : t.lane = .ok lane)
    (hplain : ∀ x ∈ t.transitions, x.place? (lane.map (·.id)) = none)
    (h : compile t library settings font = .ok c) :
    c.outline = mergeWith joinSeen? (outlineFrom 0 lane) ∧
      c.duration = (c.outline.map (·.2)).sum := by
  obtain ⟨lane', hlane', _, _, _, _, -, -, -, hsegments, hduration⟩ := compile_eq_ok h
  cases hlane.symm.trans hlane'
  have hpieces : c.outline = (t.grouping lane).pieces.map fun p => (p.isGap, p.duration) := by
    rw [Compiled.outline, hsegments]
    exact Scene.addPieces_outline ..
  constructor
  · rw [hpieces]
    exact (mergeWith_outline hplain).symm
  · rw [hduration, hpieces, Grouping.duration, Scalar.sum_eq, List.map_map]
    rfl

end Montage
