/-
Edits that meet a locked track.

An edit meets a lock if it names a clip of a locked track, or a locked track to put a clip on.
Most edits heed locks: whatever else they ask for, they leave a timeline as it is where they
meet one. The edits of links, transitions and looks look at no lock: they do what they would
do if nothing were locked (`Edit.run_unlocked`), and all they can change are those marks
(`Edit.unmarked_of_run`).
-/
import Montage.Proofs.Edit.Attached

namespace Montage

variable {α : Type}

namespace Edit

/-- The clips that an edit names. -/
def clipIds : Edit α → List String
  | .removeClip clipId | .updateClip clipId _ | .trimClip clipId _ _ | .resizeClip clipId _ _
  | .moveClip clipId _ _ | .splitClip clipId _ _ | .detachAudio clipId _ | .unlinkAudio clipId
  | .setClipAudioMuted clipId _ | .setTransition clipId _ _ _ | .removeTransition clipId _
  | .setLook clipId _ | .resetLook clipId => [clipId]
  | .linkAudio videoId audioId => [videoId, audioId]
  | _ => []

/-- The track that an edit puts a clip on. -/
def target? : Edit α → Option String
  | .addClip trackId _ _ _ | .moveClip _ trackId _ => some trackId
  | _ => none

/-- Whether an edit looks at locks. -/
def heedsLocks : Edit α → Bool
  | .linkAudio .. | .unlinkAudio .. | .setTransition .. | .removeTransition .. | .setLook ..
  | .resetLook .. => false
  | _ => true

/-- An edit names a clip of a locked track, or a locked track to put a clip on. -/
def MeetsLock (e : Edit α) (t : Timeline α) : Prop :=
  (∃ id ∈ e.clipIds, ∃ track, t.trackOf id = some track ∧ track.locked = true) ∨
    ∃ id ∈ e.target?, ∃ track, t.findTrack id = some track ∧ track.locked = true

end Edit

namespace Timeline

variable {t u : Timeline α} {clipId trackId : String} {track : Track α}

/-! ## What a lock keeps away -/

theorem editable?_of_locked (h : t.trackOf clipId = some track) (hlocked : track.locked = true) :
    t.editable? clipId = none := by
  simp [editable?, h, hlocked]

theorem receiver?_of_locked (h : t.findTrack trackId = some track) (hlocked : track.locked = true)
    (kind : MediaKind) : t.receiver? trackId kind = none := by
  simp [receiver?, h, hlocked]

variable [Scalar α]

theorem moveClip_of_locked (h : t.findTrack trackId = some track) (hlocked : track.locked = true)
    (start : α) : t.moveClip clipId trackId start = t := by
  unfold moveClip
  split
  · rfl
  · rw [receiver?_of_locked h hlocked]

end Timeline

/-- An edit that heeds locks does nothing where it meets one. -/
theorem Edit.MeetsLock.run_eq [Scalar α] {e : Edit α} {t : Timeline α} (h : e.MeetsLock t)
    (hheeds : e.heedsLocks = true) (ids : Ids) : e.run t ids = .ok (t, ids) := by
  obtain ⟨id, hid, track, htrack, hlocked⟩ | ⟨id, hid, track, htrack, hlocked⟩ := h
  · have hnone := Timeline.editable?_of_locked htrack hlocked
    cases e with
    | removeClip | updateClip | trimClip | resizeClip | moveClip | splitClip | detachAudio
    | setClipAudioMuted =>
      obtain rfl := List.mem_singleton.1 hid
      simp [run, Timeline.removeClip, Timeline.updateClip, Timeline.trimClip, Timeline.resizeClip,
        Timeline.moveClip, Timeline.splitClip, Timeline.detachAudio, Timeline.detachable?,
        Timeline.setClipAudioMuted, hnone, Except.map]
    | linkAudio | unlinkAudio | setTransition | removeTransition | setLook | resetLook => cases hheeds
    | _ => cases hid
  · cases e with
    | addClip =>
      cases hid
      simp [run, Timeline.addClip, Timeline.receiver?_of_locked htrack hlocked]
    | moveClip =>
      cases hid
      simp [run, Timeline.moveClip_of_locked htrack hlocked]
    | _ => cases hid

/-! ## Timelines without locks and without marks -/

namespace Timeline

/-- The timeline with no track locked. -/
def unlocked (t : Timeline α) : Timeline α :=
  { t with tracks := t.tracks.map fun track => { track with locked := false } }

/-- The timeline without its marks: the links of its clips, its transitions and its looks. -/
def unmarked (t : Timeline α) : Timeline α :=
  { t.mapClips (fun c => { c with audioMuted := false, detachedAudio := none, linkedVideo := none }) with
    transitions := [], looks := [] }

variable {t : Timeline α}

@[simp] theorem allClips_unlocked (t : Timeline α) : t.unlocked.allClips = t.allClips := by
  simp [allClips, unlocked, List.flatMap_map]

@[simp] theorem findClip_unlocked (t : Timeline α) (clipId : String) :
    t.unlocked.findClip clipId = t.findClip clipId := by
  simp [findClip]

theorem unlocked_mapClips (t : Timeline α) (f : Clip α → Clip α) :
    t.unlocked.mapClips f = (t.mapClips f).unlocked := by
  simp [unlocked, mapClips, Function.comp_def]

/-- Links are changed clip by clip. -/
theorem unmarked_mapClips {f : Clip α → Clip α}
    (h : ∀ c, ∃ muted detached linked, f c = { c with
      audioMuted := muted, detachedAudio := detached, linkedVideo := linked }) :
    (t.mapClips f).unmarked = t.unmarked := by
  have hsame (c : Clip α) : { f c with audioMuted := false, detachedAudio := none, linkedVideo := none } =
      { c with audioMuted := false, detachedAudio := none, linkedVideo := none } := by
    obtain ⟨muted, detached, linked, he⟩ := h c
    rw [he]
  simp [unmarked, mapClips, Function.comp_def, hsame]

/-! ### Links -/

theorem unlinkAudio_unlocked (t : Timeline α) (clipId : String) :
    t.unlocked.unlinkAudio clipId = (t.unlinkAudio clipId).unlocked := by
  unfold unlinkAudio
  rw [findClip_unlocked]
  split
  · rfl
  · exact t.unlocked_mapClips _

theorem linkAudio_unlocked (t : Timeline α) (videoId audioId : String) :
    t.unlocked.linkAudio videoId audioId = (t.linkAudio videoId audioId).unlocked := by
  have hlinkable : t.unlocked.areLinkable videoId audioId = t.areLinkable videoId audioId := by
    simp [areLinkable]
  simp only [linkAudio, hlinkable, unlinkAudio_unlocked, unlocked_mapClips]
  cases t.areLinkable videoId audioId <;> rfl

theorem unmarked_unlinkAudio (clipId : String) : (t.unlinkAudio clipId).unmarked = t.unmarked := by
  unfold unlinkAudio
  split
  · rfl
  · refine unmarked_mapClips fun c => ?_
    split
    · exact ⟨_, _, _, rfl⟩
    · exact ⟨c.audioMuted, c.detachedAudio, c.linkedVideo, rfl⟩

theorem unmarked_linkAudio (videoId audioId : String) :
    (t.linkAudio videoId audioId).unmarked = t.unmarked := by
  unfold linkAudio
  split
  · refine (unmarked_mapClips fun c => ?_).trans
      ((unmarked_unlinkAudio audioId).trans (unmarked_unlinkAudio videoId))
    split
    · exact ⟨_, _, c.linkedVideo, rfl⟩
    · split
      · exact ⟨c.audioMuted, c.detachedAudio, _, rfl⟩
      · exact ⟨c.audioMuted, c.detachedAudio, c.linkedVideo, rfl⟩
  · rfl

/-! ### Transitions and looks -/

variable [Scalar α]

theorem setTransition_unlocked (t : Timeline α) (clipId : String) (kind : TransitionKind) (duration : α)
    (side : Side) (ids : Ids) : t.unlocked.setTransition clipId kind duration side ids =
      ((t.setTransition clipId kind duration side ids).1.unlocked,
        (t.setTransition clipId kind duration side ids).2) := by
  have hat : t.unlocked.transitionAt clipId side = t.transitionAt clipId side := rfl
  simp only [setTransition, findClip_unlocked, hat]
  split
  · rfl
  · split <;> rfl

theorem setLook_unlocked (t : Timeline α) (clipId : String) (params : Fields α) :
    t.unlocked.setLook clipId params = (t.setLook clipId params).map unlocked := by
  simp only [setLook, findClip_unlocked]
  split
  · rfl
  · cases (Look.read (params.put "clip_id" (.text clipId)) : Report (Look α)).orRefuse <;> rfl

theorem unmarked_setTransition (clipId : String) (kind : TransitionKind) (duration : α) (side : Side)
    (ids : Ids) : (t.setTransition clipId kind duration side ids).1.unmarked = t.unmarked := by
  unfold setTransition
  split
  · rfl
  · split <;> rfl

theorem unmarked_setLook {clipId : String} {params : Fields α} {u : Timeline α}
    (h : t.setLook clipId params = .ok u) : u.unmarked = t.unmarked := by
  unfold setLook at h
  split at h
  · cases h
    rfl
  · obtain ⟨look, -, h⟩ := bind_eq_ok.1 h
    cases h
    rfl

end Timeline

namespace Edit

variable [Scalar α] {e : Edit α} {t : Timeline α}

/-- An edit that does not heed locks does what it would do if nothing were locked. -/
theorem run_unlocked (h : e.heedsLocks = false) (ids : Ids) :
    e.run t.unlocked ids = (e.run t ids).map fun r => (r.1.unlocked, r.2) := by
  cases e with
  | linkAudio videoId audioId => simp [run, Timeline.linkAudio_unlocked, Except.map]
  | unlinkAudio clipId => simp [run, Timeline.unlinkAudio_unlocked, Except.map]
  | setTransition clipId kind duration side => simp [run, Timeline.setTransition_unlocked, Except.map]
  | removeTransition clipId side => rfl
  | setLook clipId params =>
    simp only [run, Timeline.setLook_unlocked]
    cases t.setLook clipId params <;> rfl
  | resetLook clipId => rfl
  | _ => cases h

/-- An edit that does not heed locks leaves all but the marks as they are. -/
theorem unmarked_of_run (h : e.heedsLocks = false) {ids rest : Ids} {u : Timeline α}
    (hr : e.run t ids = .ok (u, rest)) : u.unmarked = t.unmarked := by
  cases e with
  | linkAudio videoId audioId =>
    cases hr
    exact Timeline.unmarked_linkAudio videoId audioId
  | unlinkAudio clipId =>
    cases hr
    exact Timeline.unmarked_unlinkAudio clipId
  | setTransition clipId kind duration side =>
    obtain rfl := congrArg Prod.fst (Except.ok.inj hr)
    exact Timeline.unmarked_setTransition clipId kind duration side ids
  | removeTransition clipId side =>
    cases hr
    rfl
  | setLook clipId params =>
    obtain ⟨v, hv, he⟩ := map_eq_ok.1 hr
    cases he
    exact Timeline.unmarked_setLook hv
  | resetLook clipId =>
    cases hr
    rfl
  | _ => cases h

/-- **At a lock.** An edit that names a clip of a locked track, or a locked track to put a clip
on, leaves the timeline as it is, unless it is one of the edits of links, transitions and looks.
Those act as if nothing were locked, and on nothing but these marks. -/
theorem MeetsLock.outcome (h : e.MeetsLock t) (ids : Ids) :
    (e.heedsLocks = true → e.apply t ids = .ok (t, ids)) ∧
    (e.heedsLocks = false →
      e.apply t.unlocked ids = (e.apply t ids).map (fun r => (r.1.unlocked, r.2)) ∧
      ∀ u rest, e.apply t ids = .ok (u, rest) → u.unmarked = t.unmarked) := by
  simp only [apply_eq_run]
  exact ⟨fun hheeds => h.run_eq hheeds ids, fun hnot => ⟨run_unlocked hnot ids,
    fun u rest hr => unmarked_of_run hnot hr⟩⟩

end Edit

namespace Timeline

/-- The titled cut with a transition, and its video track locked. -/
def heldCut : Timeline Rat :=
  (titledCut.setTransition "a" .dissolve 1 .finish .start).1.toggleTrackLock "v"

theorem heldCut_meets {e : Edit Rat}
    (h : (e.clipIds.any fun id => (heldCut.trackOf id).any (·.locked)) = true ∨
      (e.target?.any fun id => (heldCut.findTrack id).any (·.locked)) = true) :
    e.MeetsLock heldCut := by
  simpa only [Edit.MeetsLock, List.any_eq_true, Option.any_eq_true, Option.mem_def] using h

theorem heldCut_at_lock :
    (Edit.removeClip "a").apply heldCut .start = .ok (heldCut, .start) ∧
    (Edit.moveClip "c" "v" 9).apply heldCut .start = .ok (heldCut, .start) ∧
    ∀ u rest, (Edit.resetLook "b").apply heldCut .start = .ok (u, rest) →
      u.unmarked = heldCut.unmarked := by
  have hremove : (Edit.removeClip "a").MeetsLock heldCut := heldCut_meets (.inl (by cbv))
  have hmove : (Edit.moveClip "c" "v" 9).MeetsLock heldCut := heldCut_meets (.inr (by cbv))
  have hreset : (Edit.resetLook "b").MeetsLock heldCut := heldCut_meets (.inl (by cbv))
  exact ⟨(hremove.outcome .start).1 rfl, (hmove.outcome .start).1 rfl,
    ((hreset.outcome .start).2 rfl).2⟩

/-- What links there are, and which clips have transitions and looks. -/
def marks (t : Timeline Rat) : List (Option String × Option String) × List String × List String :=
  (t.allClips.map fun c => (c.detachedAudio, c.linkedVideo), t.transitions.map (·.clipId),
    t.looks.map (·.clipId))

/-- Links, transitions and looks of the clips on the locked track are set and taken away. -/
theorem heldCut_marked :
    ([.linkAudio "b" "c", .unlinkAudio "a", .setTransition "b" .fade 1 .start, .removeTransition "a" none,
        .setLook "a" [], .resetLook "b"] : List (Edit Rat)).Forall fun e =>
      e.MeetsLock heldCut ∧ e.apply heldCut .start ≠ .ok (heldCut, .start) := by
  have hother {e : Edit Rat} (h : ((e.apply heldCut .start).toOption.all fun r =>
      r.1.marks == heldCut.marks) = false) : e.apply heldCut .start ≠ .ok (heldCut, .start) := by
    intro he
    rw [he] at h
    simp [Except.toOption] at h
  refine List.forall_iff_forall_mem.2 fun e he => ?_
  simp only [List.mem_cons, List.not_mem_nil, or_false] at he
  obtain rfl | rfl | rfl | rfl | rfl | rfl := he <;>
    exact ⟨heldCut_meets (.inl (by cbv)), hother (by cbv)⟩

end Timeline

end Montage
