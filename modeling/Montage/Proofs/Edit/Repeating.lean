/-
Edits that are made once more, in exact arithmetic.

To move, trim or change a clip may push it on from where it was to start, and others with it. The
same edit made once more asks for the same start and trims, or leaves them, and finds everything
where it has put it: the track is in the same order as before, and nothing is pushed any further
(`resolve_again`); the trims are clamped to what they are (`Clip.change_again`). So it changes
nothing (`Reachable.apply_again`).
-/
import Montage.Proofs.Edit.Dropping

namespace Montage

/-! ## A thing put in once more -/

section Timed

variable {β ι : Type} [Timed β Rat ι] [LawfulTimed β Rat ι]

/-- A thing that is put among spaced ones comes to start at some place. Put in once more, where it asked
to start at first, it comes to the same place, and so do the others. -/
theorem resolve_again {pre post : List β} {new : β} (h : Spaced (pre ++ post))
    (hstart : ∀ b ∈ pre ++ post, 0 ≤ Timed.start b)
    (hlength : ∀ b ∈ pre ++ new :: post, overlapTolerance < Timed.length b) :
    ∃ early x late, resolve (pre ++ new :: post) = early ++ Timed.startingAt new x :: late ∧
      resolve (early ++ new :: late) = early ++ Timed.startingAt new x :: late := by
  have htol : (0 : Rat) < overlapTolerance := by norm_num [overlapTolerance_eq]
  have hsorted := sortByStart_perm (pre ++ new :: post)
  have hsort := sortByStart_sorted (pre ++ new :: post)
  obtain ⟨early, later, hsplit⟩ :=
    List.append_of_mem (hsorted.mem_iff.2 (by simp : new ∈ pre ++ new :: post))
  rw [hsplit] at hsorted hsort
  obtain ⟨hearly, hlater, hcross⟩ := List.pairwise_append.1 hsort
  obtain ⟨hbehind, hlater⟩ := List.pairwise_cons.1 hlater
  -- The others are sorted already, and no two of them start at once.
  have hothers : early ++ later = pre ++ post := by
    have hperm := ((List.perm_middle.symm.trans hsorted).trans List.perm_middle).cons_inv
    have hstrict : (pre ++ post).Pairwise fun a b => Timed.start a < Timed.start b :=
      h.imp_of_mem fun ha _ hab => by
        have hlong := hlength _ ((List.perm_middle.mem_iff).2 (List.mem_cons_of_mem _ ha))
        linarith [hab.2]
    rw [← sortByStart_eq_of_perm hperm hstrict, sortByStart_of_sorted]
    exact List.pairwise_append.2 ⟨hearly, hlater, fun a ha b hb => hcross a ha b (by simp [hb])⟩
  have hmem : ∀ b ∈ early ++ later, b ∈ pre ++ new :: post := fun b hb =>
    List.perm_middle.mem_iff.2 (List.mem_cons_of_mem _ (hothers ▸ hb))
  have hlong : ∀ b ∈ later, overlapTolerance ≤ Timed.length b := fun b hb =>
    (hlength b (hmem b (by simp [hb]))).le
  have hspaced : Spaced early := (hothers ▸ h).sublist (List.sublist_append_left ..)
  obtain ⟨x, hx, hplace⟩ := pushRight_append_cons new 0 hspaced fun b hb =>
    ⟨by linarith [hstart b (hothers ▸ List.mem_append_left _ hb)], hcross b hb new (by simp)⟩
  have hle : Timed.start new ≤ x := by
    rcases hplace with ⟨rfl, -⟩ | ⟨hlt, -⟩ <;> linarith
  -- What was pushed on is spaced, behind the new end.
  have hclear : ∀ b ∈ pushRight (x + Timed.length new) later,
      x + Timed.length new - overlapTolerance ≤ Timed.start b := le_start_of_mem_pushRight hlong
  have hnew := hlength new (by simp)
  refine ⟨early, x, pushRight (x + Timed.length new) later, ?_, ?_⟩
  · rw [resolve_eq, hsplit, hx]
  · rw [resolve_eq, sortByStart_of_sorted, hx, pushRight_of_spaced (pushRight_spaced hlong) hclear]
    have hfar : ∀ b ∈ pushRight (x + Timed.length new) later, Timed.start new ≤ Timed.start b :=
      fun b hb => by linarith [hclear b hb]
    refine List.pairwise_append.2 ⟨hearly, List.pairwise_cons.2
      ⟨hfar, (pushRight_spaced hlong).imp fun hab => hab.1⟩, fun a ha b hb => ?_⟩
    have hbefore := hcross a ha new (by simp)
    rcases List.mem_cons.1 hb with rfl | hb
    · exact hbefore
    · exact hbefore.trans (hfar b hb)

end Timed

/-! ## A clip changed once more -/

/-- Trims that were clamped are clamped alike once more, whether they are asked for again or left. -/
theorem clampTrims_again {raw head tail trimIn trimOut head' tail' : Rat}
    (hraw : minClipDuration ≤ raw) (h : (trimIn, trimOut) = clampTrims raw head tail)
    (hhead : head' = head ∨ head' = trimIn) (htail : tail' = tail ∨ tail' = trimOut) :
    clampTrims raw head' tail' = (trimIn, trimOut) := by
  have again (x : Rat) {room : Rat} (hroom : 0 ≤ room) :
      min (max 0 (min (max 0 x) room)) room = min (max 0 x) room := by
    rw [max_eq_right (le_min (le_max_left _ _) hroom), min_assoc, min_self]
  rw [clampTrims_eq_min hraw, Prod.mk.injEq] at h
  obtain ⟨rfl, rfl⟩ := h
  have hin : min (max 0 head') (raw - minClipDuration) = min (max 0 head) (raw - minClipDuration) := by
    rcases hhead with rfl | rfl
    · rfl
    · exact again head (sub_nonneg.2 hraw)
  rw [clampTrims_eq_min hraw, hin]
  rcases htail with rfl | rfl
  · rfl
  · rw [again tail (sub_nonneg.2 (min_le_right _ _))]

/-- A value that is asked for is asked for again, and one that is not is left. -/
theorem ClipChange.operand_again {asked : Option (Json Rat)} {before x : Rat}
    (h : operand (asked.getD (.real before)) = .ok x) (now : Rat) :
    ∃ y, operand (asked.getD (.real now)) = .ok y ∧ (y = x ∨ y = now) := by
  cases asked with
  | none => exact ⟨now, rfl, .inr rfl⟩
  | some j => exact ⟨x, h, .inl rfl⟩

namespace Clip

section Reading

variable {α : Type} [Scalar α] {b c d : Clip α} {changes fs gs ks : Fields α} {head tail s : α}
  {name : String}

omit [Scalar α] in
/-- A field that is set by changes reads the same whatever they are made to. -/
theorem get?_merged_or (b c : Clip α) (changes : Fields α) (head tail : α) (name : String) :
    (b.merged changes head tail).get? name = (c.merged changes head tail).get? name ∨
      changes.has name = false ∧ (b.merged changes head tail).get? name = b.fields.get? name := by
  by_cases hout : "trim_out" = name
  · exact .inl (by simp [merged, hout])
  by_cases hin : "trim_in" = name
  · exact .inl (by simp [merged, hout, hin])
  cases hname : changes.has name with
  | true =>
    refine .inl ?_
    simp only [merged, Fields.get?_put, if_neg hout, if_neg hin]
    exact Fields.get?_override_congr _ _ hname
  | false => exact .inr ⟨rfl, get?_merged_of_not_has hin hout hname⟩

/-- A clip is read from fields each of which, but for the start, it is read from among others. -/
theorem read_of_either (hg : Clip.read gs = .valid d) (hk : Clip.read ks = .valid d)
    (h : ∀ name, "start_time" ≠ name → fs.get? name = gs.get? name ∨ fs.get? name = ks.get? name)
    (hs : fs.withDefault "start_time" 0.0 Read.nonnegative = .valid s) :
    Clip.read fs = .valid { d with start := s } := by
  have hrequire {β : Type} {name : String} {read : Json α → Report β} {v : β}
      (hname : "start_time" ≠ name) (hg : gs.require name read = .valid v)
      (hk : ks.require name read = .valid v) : fs.require name read = .valid v := by
    unfold Fields.require at *
    rcases h name hname with he | he <;> rw [he] <;> assumption
  have hdefault {β : Type} {name : String} {read : Json α → Report β} {default v : β}
      (hname : "start_time" ≠ name) (hg : gs.withDefault name default read = .valid v)
      (hk : ks.withDefault name default read = .valid v) :
      fs.withDefault name default read = .valid v := by
    unfold Fields.withDefault at *
    rcases h name hname with he | he <;> rw [he] <;> assumption
  obtain ⟨g₁, g₂, g₃, g₄, g₅, -, g₇, g₈, g₉, g₁₀, g₁₁, g₁₂, g₁₃, g₁₄⟩ := Clip.read_eq_valid.1 hg
  obtain ⟨k₁, k₂, k₃, k₄, k₅, -, k₇, k₈, k₉, k₁₀, k₁₁, k₁₂, k₁₃, k₁₄⟩ := Clip.read_eq_valid.1 hk
  exact Clip.read_eq_valid.2 ⟨hrequire (by decide) g₁ k₁, hrequire (by decide) g₂ k₂,
    hrequire (by decide) g₃ k₃, hrequire (by decide) g₄ k₄, hdefault (by decide) g₅ k₅, hs,
    hrequire (by decide) g₇ k₇, hdefault (by decide) g₈ k₈, hdefault (by decide) g₉ k₉,
    hdefault (by decide) g₁₀ k₁₀, hdefault (by decide) g₁₁ k₁₁, hdefault (by decide) g₁₂ k₁₂,
    hdefault (by decide) g₁₃ k₁₃, hdefault (by decide) g₁₄ k₁₄⟩

omit [Scalar α] in
theorem get?_fields_startingAt (d : Clip α) (s : α) (hname : "start_time" ≠ name) :
    ({ d with start := s } : Clip α).fields.get? name = d.fields.get? name := by
  simp only [fields, Fields.get?_cons, if_neg hname]

end Reading

variable {c d : Clip Rat} {changes floored : Fields Rat} {head tail s : Rat}

/-- The start that is read when changes are made once more: the one that they ask for, if any. -/
theorem start_again (hfloored : ClipChange.floored changes = .ok floored)
    (h : (c.merged floored head tail).withDefault "start_time" 0.0 Read.nonnegative =
      .valid d.start) (hs : 0 ≤ s) :
    (({ d with start := s } : Clip Rat).merged floored head tail).withDefault "start_time" 0.0
      Read.nonnegative = .valid (if changes.has "start_time" then d.start else s) := by
  rcases ClipChange.floored_eq_ok hfloored with ⟨hnone, rfl⟩ | ⟨j, k, hj, -, rfl⟩
  · have hname : floored.has "start_time" = false := by simp [Fields.has_eq_isSome, hnone]
    rw [hname, Fields.withDefault, get?_merged_of_not_has (by decide) (by decide) hname]
    simp [fields, Read.nonnegative_eq_valid, hs]
  · have hname : changes.has "start_time" = true := by simp [Fields.has_eq_isSome, hj]
    rw [Fields.withDefault_of_get? get?_merged_start] at h
    rw [hname, if_pos rfl, Fields.withDefault_of_get? get?_merged_start]
    exact h

/-- **A change made once more**, after the clip has been pushed on, sets the start again if it asks for
one, and nothing else. -/
theorem change_again (hraw : minClipDuration ≤ c.rawDuration)
    (hedit : ∀ change ∈ changes, ClipChange.editable.contains change.1 = true)
    (h : c.change changes = .ok d) (hs : 0 ≤ s) :
    ({ d with start := s } : Clip Rat).change changes =
      .ok { d with start := if changes.has "start_time" then d.start else s } := by
  obtain ⟨head, tail, hd⟩ := change_eq_ok hedit h
  obtain ⟨floored, x, y, hfloored, hhead, htail, hread⟩ := change_eq_ok_iff.1 h
  have hother := (ClipChange.floored_other hfloored).2
  obtain rfl : head = x := by simpa [hother, hd.head] using hhead
  obtain rfl : tail = y := by simpa [hother, hd.tail] using htail
  -- A trim that is not asked for is, by now, what it was clamped to.
  obtain ⟨head', hhead', hin⟩ := ClipChange.operand_again hhead d.trimIn
  obtain ⟨tail', htail', hout⟩ := ClipChange.operand_again htail d.trimOut
  have hclamp : clampTrims d.rawDuration head' tail' = (d.trimIn, d.trimOut) := by
    rw [hd.rawDuration, clampTrims_again hraw hd.trims hin hout]
  refine change_eq_ok_iff.2 ⟨floored, head', tail', hfloored, hhead', htail', ?_⟩
  rw [← hd.trims] at hread
  dsimp only
  rw [hclamp]
  obtain ⟨-, -, -, -, -, hstart, -⟩ := Clip.read_eq_valid.1 hread
  refine read_of_either hread (read_fields hd.valid) (fun name hname => ?_)
    (start_again hfloored hstart hs)
  rcases get?_merged_or { d with start := s } c floored d.trimIn d.trimOut name with he | ⟨-, he⟩
  · exact .inl he
  · exact .inr (he.trans (get?_fields_startingAt d s hname))

end Clip

/-! ## A track settled once more -/

namespace Track

variable {track : Track Rat} {clip new : Clip Rat} {clips pre post : List (Clip Rat)}

/-- A clip is on a track, wherever it starts there. To put it back to where it was to start, and to
settle the track once more, changes nothing. -/
def Holds (track : Track Rat) (new : Clip Rat) : Prop :=
  ∃ x, { new with start := x } ∈ track.clips ∧
    track.settle (Montage.replaceClip track.clips new) = track

/-- The track with a clip changed: settled, if when it is seen may have changed. -/
def change (track : Track Rat) (changes : Fields Rat) (new : Clip Rat) : Track Rat :=
  if ClipChange.timing.any fun name => changes.has name then
    track.settle (Montage.replaceClip track.clips new)
  else { track with clips := Montage.replaceClip track.clips new }

@[simp] theorem change_id (track : Track Rat) (changes : Fields Rat) (new : Clip Rat) :
    (track.change changes new).id = track.id := by
  unfold change
  split <;> rfl

@[simp] theorem change_locked (track : Track Rat) (changes : Fields Rat) (new : Clip Rat) :
    (track.change changes new).locked = track.locked := by
  unfold change
  split <;> rfl

/-- A track holds a clip that is put among spaced ones. -/
theorem holds_settle (hclips : clips = pre ++ new :: post) (hspaced : Spaced (pre ++ post))
    (hids : (clips.map (·.id)).Nodup) (hfits : ∀ c ∈ clips, c.Fits track.id track.kind) :
    (track.settle clips).Holds new := by
  subst hclips
  have hstart : ∀ c ∈ pre ++ post, 0 ≤ Timed.start c := fun c hc =>
    (hfits c (List.perm_middle.mem_iff.2 (List.mem_cons_of_mem _ hc))).start
  obtain ⟨early, x, late, hfirst, hagain⟩ :=
    resolve_again hspaced hstart fun c hc => (hfits c hc).tolerance_lt_length
  have hplaced : (resolve (pre ++ new :: post)).map (·.id) =
      early.map (·.id) ++ new.id :: late.map (·.id) := by
    rw [hfirst, List.map_append]
    rfl
  have hnodup : (early.map (·.id) ++ new.id :: late.map (·.id)).Nodup :=
    hplaced ▸ (resolve_map_perm (fun _ _ => rfl) _).nodup_iff.2 hids
  have hne : ∀ c ∈ early ++ late, c.id ≠ new.id := by
    rw [List.nodup_middle, List.nodup_cons, ← List.map_append] at hnodup
    exact fun c hc he => hnodup.1 (he ▸ List.mem_map_of_mem hc)
  refine ⟨x, ?_, ?_⟩
  · show { new with start := x } ∈ resolve (pre ++ new :: post)
    rw [hfirst]
    exact List.mem_append_right _ List.mem_cons_self
  · have hclips : Montage.replaceClip (early ++ Timed.startingAt new x :: late) new =
        early ++ new :: late := replaceClip_of_split hne rfl
    simp only [settle, hfirst, hclips, hagain]

namespace Sound

/-- A track holds a clip that is put in the place of another one. -/
theorem holds_replaceClip (hs : track.Sound) (hn : (track.clips.map (·.id)).Nodup)
    (hc : clip ∈ track.clips) (hid : new.id = clip.id) (hfits : new.Fits track.id track.kind) :
    (track.settle (Montage.replaceClip track.clips new)).Holds new := by
  obtain ⟨pre, post, hsplit, hne, hspaced, -⟩ := hs.exists_around hn hc
  have hclips : Montage.replaceClip track.clips new = pre ++ new :: post := by
    rw [hsplit]
    exact replaceClip_of_split hne hid
  refine holds_settle hclips hspaced ?_ (hs.fits_replaceClip hfits)
  rwa [map_replaceClip hn hc hid hid]

/-- A track holds a clip that is new to it. -/
theorem holds_append (hs : track.Sound) (hn : (track.clips.map (·.id)).Nodup)
    (hnew : ∀ c ∈ track.clips, c.id ≠ new.id) (hfits : new.Fits track.id track.kind) :
    (track.settle (track.clips ++ [new])).Holds new := by
  refine holds_settle rfl (by simpa using hs.spaced) ?_ fun c hc => ?_
  · simpa [List.nodup_append] using ⟨hn, hnew⟩
  · rcases List.mem_append.1 hc with hc | hc
    · exact hs.clips c hc
    · rwa [List.mem_singleton.1 hc]

theorem change_self (hs : track.Sound) (hn : (track.clips.map (·.id)).Nodup) (hc : clip ∈ track.clips)
    (changes : Fields Rat) : track.change changes clip = track := by
  rw [change, replaceClip_self hn hc, hs.settle_self, ite_self]

/-- A clip that has been changed is on its track, somewhere. If it was asked to start there, it can be
asked to once more. -/
theorem exists_change (hs : track.Sound) (hn : (track.clips.map (·.id)).Nodup)
    (hc : clip ∈ track.clips) (hid : new.id = clip.id) (hfits : new.Fits track.id track.kind)
    (changes : Fields Rat) : ∃ x, { new with start := x } ∈ (track.change changes new).clips ∧
      (changes.has "start_time" = true →
        (track.change changes new).change changes new = track.change changes new) := by
  unfold change
  split
  · obtain ⟨x, hx, hsame⟩ := hs.holds_replaceClip hn hc hid hfits
    exact ⟨x, hx, fun _ => hsame⟩
  · next htiming =>
    refine ⟨new.start, List.mem_map.2 ⟨clip, hc, if_pos (beq_iff_eq.2 hid.symm)⟩, fun hname => ?_⟩
    exact absurd (List.any_eq_true.2 ⟨"start_time", by decide, hname⟩) htiming

end Sound

end Track

/-! ## An edit made once more -/

/-- Whether an edit moves, trims or changes a clip. -/
def Edit.SetsClip {α : Type} : Edit α → Prop
  | .moveClip .. | .trimClip .. | .updateClip .. => True
  | _ => False

namespace Timeline

variable {t u : Timeline Rat} {track source target : Track Rat} {clip new : Clip Rat}
  {changes : Fields Rat} {clipId trackId : String} {x : Rat} {ids rest : Ids}

theorem updateClip_eq (hclip : t.editable? clipId = some (track, clip))
    (hedit : ∀ change ∈ changes, ClipChange.editable.contains change.1 = true)
    (hnew : clip.change changes = .ok new) :
    t.updateClip clipId changes = .ok (t.replaceTrack (track.change changes new)) := by
  have hknown : (changes.map (·.1)).filter (fun name => !ClipChange.editable.contains name) = [] := by
    simpa [List.filter_eq_nil_iff] using hedit
  simp only [updateClip, hclip, hknown, hnew]
  show Except.ok ((t.replaceTrack (track.change changes new)).renewed
    (changes.has "transform" && new.transform.any Transform.isUndefined)) = _
  rw [Transform.any_isUndefined, Bool.and_false]
  rfl

/-- A clip changed once more is changed where it has been put. -/
theorem Reachable.updateClip_again (h : t.Reachable) (hu : u.Reachable)
    (hr : t.updateClip clipId changes = .ok u) : u.updateClip clipId changes = .ok u := by
  rcases updateClip_eq_ok hr with ⟨-, rfl⟩ | ⟨track, clip, new, -, hclip, hedit, hnew, -⟩
  · exact hr
  rw [updateClip_eq hclip hedit hnew, Except.ok.injEq] at hr
  obtain ⟨ht, hopen, hc, rfl⟩ := editable?_eq_some hclip
  have hs := h.sound track ht
  obtain ⟨head, tail, hd⟩ := Clip.change_eq_ok hedit hnew
  obtain ⟨x, hx, hsame⟩ := hs.exists_change (nodup_clipIds h.linked.clipIds ht) hc hd.id
    ((hs.clips clip hc).of_changed hd) changes
  have hmem : track.change changes new ∈ u.tracks := hr ▸ mem_tracks_replaceTrack ht (by simp)
  have hsound := hu.sound _ hmem
  have hfound : u.editable? new.id = some (track.change changes new, { new with start := x }) :=
    hu.sound.editable?_eq hu.linked hmem (by simpa using hopen) hx
  have hchange := Clip.change_again (hs.clips clip hc).least_le_rawDuration hedit hnew
    (hsound.clips _ hx).start
  rw [← hd.id, updateClip_eq hfound hedit hchange]
  have hstay : (track.change changes new).change changes
      { new with start := if changes.has "start_time" then new.start else x } =
        track.change changes new := by
    split
    · next hname => exact hsame hname
    · exact hsound.change_self (nodup_clipIds hu.linked.clipIds hmem) hx changes
  rw [hstay, replaceTrack_self hu.linked.trackIds hmem]

/-- A clip that is moved to a track that holds it, had it been put there, stays. -/
theorem Reachable.moveClip_eq_self (h : t.Reachable) (ht : track ∈ t.tracks)
    (hopen : track.locked = false) (hkind : track.kind.accepts clip.kind = true) (hx : 0 ≤ x)
    (hholds : track.Holds (clip.putOn track.id x)) : t.moveClip clip.id track.id x = t := by
  obtain ⟨y, hy, hsame⟩ := hholds
  have hmoved := h.moveClip_eq ht hopen hy ht hopen hkind hx
  rw [if_pos rfl] at hmoved
  exact hmoved.trans (hsame.symm ▸ replaceTrack_self h.linked.trackIds ht)

theorem moveClip_max (t : Timeline Rat) (clipId trackId : String) (x : Rat) :
    t.moveClip clipId trackId (max 0 x) = t.moveClip clipId trackId x := by
  simp [moveClip]

/-- A track holds a clip that is moved to it. -/
theorem Reachable.exists_moved (h : t.Reachable) (hs : source ∈ t.tracks)
    (hsource : source.locked = false) (hc : clip ∈ source.clips) (ht : target ∈ t.tracks)
    (htarget : target.locked = false) (hkind : target.kind.accepts clip.kind = true) (hx : 0 ≤ x) :
    ∃ clips, { target with clips } ∈ (t.moveClip clip.id target.id x).tracks ∧
      Track.Holds { target with clips } (clip.putOn target.id x) := by
  have hfits : (clip.putOn target.id x).Fits target.id target.kind :=
    { (h.sound source hs).clips clip hc with start := hx, home := rfl, accepted := hkind }
  rw [h.moveClip_eq hs hsource hc ht htarget hkind hx]
  split
  · next hid =>
    obtain rfl := List.inj_on_of_nodup_map h.linked.trackIds hs ht hid
    have hholds : Track.Holds (source.settle (replaceClip source.clips (clip.putOn source.id x)))
        (clip.putOn source.id x) :=
      (h.sound source hs).holds_replaceClip (nodup_clipIds h.linked.clipIds hs) hc rfl hfits
    exact ⟨_, mem_tracks_replaceTrack hs rfl, hholds⟩
  · next hid =>
    have hholds : Track.Holds (target.settle (target.clips ++ [clip.putOn target.id x]))
        (clip.putOn target.id x) :=
      (h.sound target ht).holds_append (nodup_clipIds h.linked.clipIds ht)
        (h.id_ne_of_track_ne hs hc ht (Ne.symm hid)) hfits
    have hleft : target ∈ (t.replaceTrack
        { source with clips := source.clips.filter (·.id != clip.id) }).tracks :=
      List.mem_map.2 ⟨target, ht, if_neg fun he => hid (beq_iff_eq.1 he).symm⟩
    exact ⟨_, mem_tracks_replaceTrack hleft rfl, hholds⟩

/-- A clip moved once more is on the track that it was moved to. -/
theorem Reachable.moveClip_again (h : t.Reachable) (hu : u.Reachable) (hx : 0 ≤ x)
    (hr : t.moveClip clipId trackId x = u) : u.moveClip clipId trackId x = u := by
  cases hclip : t.editable? clipId with
  | none =>
    have hsame : t.moveClip clipId trackId x = t := by simp only [moveClip, hclip]
    rw [← hr, hsame, hsame]
  | some found =>
    obtain ⟨source, clip⟩ := found
    cases htarget : t.receiver? trackId clip.kind with
    | none =>
      have hsame : t.moveClip clipId trackId x = t := by simp only [moveClip, hclip, htarget]
      rw [← hr, hsame, hsame]
    | some target =>
      obtain ⟨hs, hsource, hc, rfl⟩ := editable?_eq_some hclip
      obtain ⟨ht, rfl, hopen, hkind⟩ := receiver?_eq_some htarget
      obtain ⟨clips, hmem, hholds⟩ := h.exists_moved hs hsource hc ht hopen hkind hx
      rw [hr] at hmem
      have hsame := hu.moveClip_eq_self hmem hopen hkind hx hholds
      exact hsame

/-- **An edit made once more changes nothing**, if it moves, trims or changes a clip: whatever it has
pushed on, the clip itself or others, is where it is left. -/
theorem Reachable.apply_again (h : t.Reachable) {e : Edit Rat} (he : e.SetsClip)
    (hr : e.apply t ids = .ok (u, rest)) (later : Ids) : e.apply u later = .ok (u, later) := by
  have hreached (hnew : e.GivesNew t) (hids : rest = ids) : u.Reachable :=
    h.step e hnew (fun _ hle hlt => absurd (hids ▸ hlt) (not_lt.2 hle)) hr
  rw [Edit.apply_eq_run] at hr ⊢
  cases e with
  | moveClip clipId trackId start =>
    obtain ⟨hmoved, hids⟩ := Prod.mk.inj (Except.ok.inj hr)
    rw [← moveClip_max] at hmoved
    have hsame := h.moveClip_again (hreached trivial hids.symm) (le_max_left 0 start) hmoved
    rw [moveClip_max] at hsame
    rw [Edit.run, hsame]
  | updateClip clipId changes | trimClip clipId trimIn trimOut =>
    obtain ⟨_, hchanged, he⟩ := map_eq_ok.1 hr
    obtain ⟨rfl, hids⟩ := Prod.mk.inj he
    have hsame := h.updateClip_again (hreached trivial hids.symm) hchanged
    exact congrArg (Except.map _) hsame
  | _ => exact he.elim

/-- The last clip of the photo cut is to start within the first one, and a second later in its media. -/
def earlier : Edit Rat := .updateClip "b" [("start_time", .real 1), ("trim_in", .real 1)]

/-- That clip is pushed on to the end of the first one, and pushes the picture on in turn. -/
def earlierCut : Timeline Rat := photoCut.exchange "b" fun c => { c with start := 1, trimIn := 1 }

theorem apply_earlier : earlier.apply photoCut .start = .ok (earlierCut, .start) := by
  have hsome : (photoCut.editable? "b").isSome = true := by cbv
  obtain ⟨⟨track, clip⟩, hclip⟩ := Option.isSome_iff_exists.1 hsome
  have htrims : (photoCut.editable? "b").all (fun found =>
      decide (found.2.rawDuration = 4) && decide (found.2.trimOut = 0)) = true := by cbv
  rw [hclip, Option.all_some, Bool.and_eq_true, decide_eq_true_eq, decide_eq_true_eq] at htrims
  obtain ⟨ht, -, hc, -⟩ := editable?_eq_some hclip
  have hfits := (photoCut_reachable.sound track ht).clips clip hc
  have hfit : TrimsFit clip.rawDuration 1 clip.trimOut := by
    rw [htrims.1, htrims.2]
    constructor <;> norm_num [minClipDuration_eq]
  have hchange := clip.change_start hfits.toValid (by norm_num : (0 : Rat) ≤ 1) hfit
  rw [Edit.apply_eq_run, earlier, Edit.run, updateClip_eq hclip (by decide) hchange, earlierCut,
    exchange, hclip]
  rfl

theorem earlierCut_again :
    photoCut.Reachable ∧ earlier.SetsClip ∧
      photoCut.clipTable =
        [("a", 0, 4, none), ("d", 4, 8, some 3), ("b", 8, 12, none), ("c", 0, 4, none)] ∧
      earlier.apply photoCut .start = .ok (earlierCut, .start) ∧
      earlierCut.clipTable =
        [("a", 0, 4, none), ("b", 4, 7, none), ("d", 7, 11, some 0), ("c", 0, 4, none)] ∧
      earlier.apply earlierCut .start = .ok (earlierCut, .start) :=
  have hsets : earlier.SetsClip := trivial
  ⟨photoCut_reachable, hsets, photoCut_clipTable, apply_earlier, by cbv,
    photoCut_reachable.apply_again hsets apply_earlier .start⟩

end Timeline

end Montage
