/-
What a request to move a clip does, in exact arithmetic.

The start that the request comes down to is free of the other clips of the track
(`Studio.dropStart_free`), so that the clip is dropped there and no other clip of the project is
moved (`Studio.respond_drag`).
-/
import Montage.Proofs.Api.Served
import Montage.Proofs.Edit.Dropping

namespace Montage

/-! ## Timelines that are committed -/

deriving instance ReflBEq, LawfulBEq for Crop, Transform
deriving instance ReflBEq, LawfulBEq for Clip
deriving instance ReflBEq, LawfulBEq for Track

instance Scalar.lawfulBEq_rat : @LawfulBEq Rat Scalar.toBEq := inferInstanceAs (LawfulBEq Rat)

theorem Timeline.tracks_eq_of_beq {t u : Timeline Rat} (h : (t == u) = true) : t.tracks = u.tracks := by
  obtain ⟨h, -⟩ := Bool.and_eq_true_iff.1 h
  simp only [Bool.and_eq_true] at h
  exact eq_of_beq h.1.1.1.2

/-- A project whose timeline gets other tracks has them, whether that is a step or not. -/
theorem Project.current_commit {p : Project Rat} {limit : Int} {after : Timeline Rat}
    (h : after = { p.current with tracks := after.tracks }) :
    (p.commit limit after).current = after := by
  unfold commit
  split
  · next hsame => rw [h, Timeline.tracks_eq_of_beq hsame]
  · rfl

namespace Studio

variable {s : Studio Rat} {p : Project Rat} {id : String} {source target : Track Rat} {clip : Clip Rat}
  {d : Drag Rat}

theorem snap_nonneg (items : List (Clip Rat)) (time length : Rat) (except : Option String)
    (threshold : Rat) : 0 ≤ snap items time length except threshold := by
  unfold snap
  simp

/-- A place that is not before zero is kept if it is free, and exchanged for one that is if not. -/
theorem preferred_free (items : List (Clip Rat)) {x : Rat} (length : Rat) (except : Option String)
    (hx : 0 ≤ x) :
    let place := if collides items x length except then freePosition items x length except else x
    0 ≤ place ∧ collides items place length except = false := by
  dsimp only
  split
  · next hmeets => exact not_collides_freePosition hmeets
  · next hfree => exact ⟨hx, Bool.eq_false_iff.2 hfree⟩

/-- The place of a clip that is dragged is free, and not before zero. -/
theorem dropStart_free (hs : target.Sound) (hpos : 0 < clip.visibleDuration)
    (hstart : 0 ≤ d.start ∨ d.snaps = true) :
    0 ≤ dropStart target clip d ∧
      FreeAt (others target.clips (some clip.id)) (dropStart target clip d) clip.visibleDuration := by
  have hlength : ∀ c ∈ others target.clips (some clip.id), 0 < Timed.length c := fun c hc =>
    (hs.clips c (List.mem_of_mem_filter hc)).length_pos
  have hpreferred : 0 ≤ if d.snaps then
      snap target.clips d.start clip.visibleDuration (some clip.id) snapThreshold else d.start := by
    split
    · exact snap_nonneg ..
    · next hsnaps => exact hstart.resolve_right hsnaps
  rw [← collides_eq_false_iff_freeAt hlength hpos]
  exact preferred_free target.clips clip.visibleDuration (some clip.id) hpreferred

/-- One edit that is carried out makes the project with its timeline, which is shown. -/
theorem editAll_of_run {e : Edit Rat} {after : Timeline Rat} {rest : Ids} (hp : s.project? id = some p)
    (hr : e.run p.current s.ids = .ok (after, rest)) :
    ∃ u, editAll id [e] s = (u, .ok (p.commit s.historyLimit after).shown) ∧
      u.project? id = some (p.commit s.historyLimit after) := by
  obtain ⟨-, rfl⟩ := mem_of_project? hp
  let u := ({ s with ids := rest } : Studio Rat).putProject (p.commit s.historyLimit after)
  have hedit : s.edit p e = .ok u := edit_eq_ok.2 ⟨after, rest, hr, rfl⟩
  have hfound : u.project? p.id = some (p.commit s.historyLimit after) := by
    rw [← p.id_commit s.historyLimit after]
    exact project?_putProject _ _
  refine ⟨u, ?_, hfound⟩
  rw [editAll, hp]
  simp only [hedit]
  rw [editAll, showProject, hfound]

/-- **A clip that is dragged shoves no other one.** A request to move a clip of a timeline that is
reached from an unlocked track to one that takes it, to a time not before zero or to one that may
snap, puts it at the start that the request comes down to, which is free of the other clips of the
track, and leaves all other clips of the project as they are. -/
theorem respond_drag (hp : s.project? id = some p) (h : p.current.Reachable)
    (hs : source ∈ p.current.tracks) (hsource : source.locked = false) (hc : clip ∈ source.clips)
    (ht : target ∈ p.current.tracks) (htarget : target.locked = false)
    (hkind : target.kind.accepts clip.kind = true) (runner : Runner Rat) {r : ApiRequest Rat}
    (hroute : Endpoint.find r.method r.target.path = .ok (.moveClip id clip.id))
    (hbody : r.payload.read Drag.read = .ok d) (htrack : d.trackId = target.id)
    (hstart : 0 ≤ d.start ∨ d.snaps = true) :
    let x := dropStart target clip d
    0 ≤ x ∧ FreeAt (others target.clips (some clip.id)) x clip.visibleDuration ∧
      ∃ q, (s.respond runner r).1.project? id = some q ∧
        (s.respond runner r).2 = (Response.ok q.shown).written ∧
        p.current.Drops (clip.putOn target.id x) q.current := by
  intro x
  have hfits := (h.sound source hs).clips clip hc
  obtain ⟨hx, hfree⟩ := dropStart_free (h.sound target ht) hfits.length_pos hstart
  have hdrops := h.moveClip_drops hs hsource hc ht htarget hkind hx hfree
  refine ⟨hx, hfree, p.commit s.historyLimit (p.current.moveClip clip.id target.id x), ?_⟩
  have hclip : p.current.findClip clip.id = some clip :=
    find?_key_eq_some h.linked.clipIds (Timeline.mem_allClips hs hc) rfl
  have hfound : p.current.findTrack target.id = some target :=
    find?_key_eq_some h.linked.trackIds ht rfl
  obtain ⟨u, hedit, hafter⟩ := editAll_of_run (e := .moveClip clip.id target.id x) hp rfl
  have hserve : s.serve runner r.target r.payload (.moveClip id clip.id) =
      (u, .ok (p.commit s.historyLimit (p.current.moveClip clip.id target.id x)).shown) := by
    rw [serve, withBody, hbody]
    simp only [dragClip, withProject, hp, hclip, htrack, hfound]
    exact hedit
  rw [respond_eq hroute, hserve]
  refine ⟨?_, rfl, ?_⟩
  · dsimp only
    split <;> exact hafter
  · rwa [Project.current_commit hdrops.rest]

/-- A studio with the photo cut. -/
def cutting : Studio Rat :=
  { (vacant [] 50 : Studio Rat) with projects := [.new "p" Timeline.photoCut] }

/-- The first clip of the photo cut dragged into the picture behind it. -/
def intoPicture : ApiRequest Rat :=
  ⟨"POST", ⟨["video", "timelines", "p", "clips", "a", "move"], []⟩,
    .data (.object [("track_id", .text "v"), ("start_time", .real 7)])⟩

theorem cutting_after_drag :
    ∃ target ∈ Timeline.photoCut.tracks, ∃ clip ∈ target.clips,
      target.id = "v" ∧ clip.id = "a" ∧ target.locked = false ∧ target.kind.accepts clip.kind = true ∧
      dropStart target clip ⟨"v", 7, true⟩ = 12 ∧
      FreeAt (others target.clips (some "a")) 12 clip.visibleDuration ∧
      ∃ q, (cutting.respond promptly intoPicture).1.project? "p" = some q ∧
        (cutting.respond promptly intoPicture).2 = (Response.ok q.shown).written ∧
        Timeline.photoCut.Drops (clip.putOn "v" 12) q.current := by
  have hseen : ((Timeline.photoCut.findTrack "v").bind fun target => (target.findClip "a").map fun clip =>
      (target.locked, target.kind.accepts clip.kind, dropStart target clip ⟨"v", 7, true⟩)) =
      some (false, true, 12) := by cbv
  obtain ⟨target, htarget, hseen⟩ := Option.bind_eq_some_iff.1 hseen
  obtain ⟨clip, hclip, hseen⟩ := Option.map_eq_some_iff.1 hseen
  simp only [Prod.mk.injEq] at hseen
  obtain ⟨hopen, hkind, hplace⟩ := hseen
  obtain ⟨ht, hid⟩ := Timeline.mem_of_findTrack htarget
  have hc := List.mem_of_find?_eq_some hclip
  have hclipId : clip.id = "a" := by simpa using List.find?_some hclip
  have hroute : Endpoint.find intoPicture.method intoPicture.target.path =
      .ok (.moveClip "p" clip.id) := by
    rw [hclipId]
    cbv
  have hbody : intoPicture.payload.read Drag.read = .ok ⟨"v", 7, true⟩ := by cbv
  have hp : cutting.project? "p" = some (.new "p" Timeline.photoCut) := by cbv
  have hdrag := respond_drag hp Timeline.photoCut_reachable ht hopen hc ht hopen hkind promptly hroute
    hbody hid.symm (.inl (by norm_num))
  rw [hplace, hclipId, hid] at hdrag
  exact ⟨target, ht, clip, hc, hid, hclipId, hopen, hkind, hplace, hdrag.2⟩

end Studio

end Montage
