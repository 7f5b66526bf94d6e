/-
What compiling a timeline comes to.

Where each clip names its own track (`Timeline.Homed`), a timeline compiles unless a medium is
missing, nothing is seen, or a number cannot be measured (`compile_outcome`). In exact arithmetic
every number can be, so that a timeline that is reached fails to compile for the first two causes
alone (`Timeline.Reachable.compile_answers`), and each of them has an answer of its own
(`Studio.dryRun_answers`). Doubles end: the letters of a text can be too large for them, and
then a timeline that shows it is not compiled (`compile_hugeSize`), and a dry run of it is not answered.
-/
import Montage.Proofs.Api.Served
import Montage.Proofs.Edit.Sound
import Montage.Proofs.Export.Compiled
import Montage.Proofs.Layout.Table
import Montage.Render.Studio

namespace Montage

section General

variable {α : Type} [Scalar α] {t : Timeline α} {library : Library α} {settings : ExportSettings}
  {font : String} {s : Scene α} {total : α} {cause : Unmeasurable}

/-! ## The clips that are looked at -/

namespace Timeline

/-- The clips of the visual tracks. -/
def visualClips (t : Timeline α) : List (Clip α) := (t.tracks.filter Track.isVisual).flatMap (·.clips)

/-- A timeline whose clips name the tracks that they are on. -/
def Homed (t : Timeline α) : Prop := ∀ track ∈ t.tracks, ∀ c ∈ track.clips, c.trackId = track.id

theorem Homed.lane_eq (h : t.Homed) : t.lane = .ok (t.visualClips.mergeSort t.laneLe) := by
  have hnone : t.visualClips.find? (fun c => (t.trackIndex? c.trackId).isNone) = none := by
    rw [List.find?_eq_none]
    intro c hc hstray
    obtain ⟨track, htrack, hc⟩ := List.mem_flatMap.1 hc
    have htrack := List.mem_of_mem_filter htrack
    rw [h track htrack c hc, Option.isNone_iff_eq_none, trackIndex?, lastIndex?_eq_none] at hstray
    exact hstray (List.mem_map.2 ⟨track, htrack, rfl⟩)
  unfold lane
  rw [show (t.tracks.filter Track.isVisual).flatMap (·.clips) = t.visualClips from rfl]
  simp only [hnone]

theorem Homed.lastTrack? (h : t.Homed) {clip : Clip α} (hclip : clip ∈ t.heardClips) :
    ∃ track, t.lastTrack? clip.trackId = some track := by
  have hmem := (sortByStart_perm _).mem_iff.1 hclip
  obtain ⟨track, htrack, hclip⟩ := List.mem_flatMap.1 hmem
  have htrack := List.mem_of_mem_filter htrack
  rw [← Option.isSome_iff_exists, Timeline.lastTrack?, List.find?_isSome]
  exact ⟨track, List.mem_reverse.2 htrack, by simp [h track htrack clip hclip]⟩

end Timeline

/-! ## The numbers that are measured -/

namespace Scene

/-- Whether the letters and the places of a text can be measured, if it is seen. -/
def Draws (s : Scene α) (font : String) (total : α) (o : Overlay α) : Prop :=
  shows total o = true →
    ∃ f, o.drawn (.whole s.width) (.whole s.height) o.start (Scalar.smaller o.finish total) font = .ok f

/-- Whether the delay of a sound can be measured, if it is heard. -/
def Delays (total : α) (clip : Clip α) : Prop :=
  ¬ total ≤ clip.start → ∃ ms, measure (clip.start * 1000.0) = .ok ms

theorem addOverlays_ok_iff {overlays : List (Overlay α)} {g : Draft α} {video : Int} :
    (∃ r, s.addOverlays font total g video overlays = .ok r) ↔
      ∀ o ∈ overlays, s.Draws font total o := by
  induction overlays generalizing g video with
  | nil => simp [addOverlays]
  | cons o overlays ih =>
    rw [List.forall_mem_cons, addOverlays]
    split
    next hshows =>
      split
      next cause hdrawn => simp [Draws, hshows, hdrawn]
      next f hdrawn => simp [Draws, hshows, hdrawn, ih]
    next hshows => simp [Draws, hshows, ih]

theorem addOverlays_eq_error {overlays : List (Overlay α)} {g : Draft α} {video : Int}
    {e : CompileError α} (h : s.addOverlays font total g video overlays = .error e) :
    ∃ cause, e = .unmeasurable cause := by
  induction overlays generalizing g video with
  | nil => cases h
  | cons o overlays ih =>
    rw [addOverlays] at h
    split at h
    · split at h
      next cause _ => exact ⟨cause, (Except.error.inj h).symm⟩
      · exact ih h
    · exact ih h

theorem addHeard_ok_iff {clips : List (Clip α)} {m : Mix α}
    (hclips : ∀ c ∈ clips, ∃ track, s.timeline.lastTrack? c.trackId = some track) :
    (∃ r, s.addHeard total m clips = .ok r) ↔ ∀ c ∈ clips, Delays total c := by
  induction clips generalizing m with
  | nil => simp [addHeard]
  | cons c clips ih =>
    obtain ⟨⟨track, htrack⟩, hclips⟩ := List.forall_mem_cons.1 hclips
    rw [List.forall_mem_cons, addHeard]
    split
    next hlate => simp [Delays, hlate, ih hclips]
    next hlate =>
      rw [htrack]
      dsimp only
      split
      next cause hms => simp [Delays, hlate, hms]
      next ms hms => simp [Delays, hlate, hms, ih hclips]

theorem addHeard_eq_error {clips : List (Clip α)} {m : Mix α} {e : CompileError α}
    (hclips : ∀ c ∈ clips, ∃ track, s.timeline.lastTrack? c.trackId = some track)
    (h : s.addHeard total m clips = .error e) : ∃ cause, e = .unmeasurable cause := by
  induction clips generalizing m with
  | nil => cases h
  | cons c clips ih =>
    obtain ⟨⟨track, htrack⟩, hclips⟩ := List.forall_mem_cons.1 hclips
    rw [addHeard] at h
    split at h
    · exact ih hclips h
    · rw [htrack] at h
      dsimp only at h
      split at h
      next cause _ => exact ⟨cause, (Except.error.inj h).symm⟩
      · exact ih hclips h

end Scene

/-! ## The outcome -/

/-- Whether all that is drawn and heard in an export can be measured. -/
structure Timeline.Measurable (t : Timeline α) (library : Library α) (settings : ExportSettings)
    (font : String) (total : α) : Prop where
  texts : ∀ o ∈ t.overlays, (Scene.ofSettings t library settings).Draws font total o
  sounds : ∀ c ∈ t.heardClips, Scene.Delays total c

/-- The length of the picture. -/
def Timeline.pictureLength (t : Timeline α) : α :=
  (t.grouping (t.visualClips.mergeSort t.laneLe)).duration

/-- The clips whose media are looked up, in this order. -/
def Timeline.lookedUp (t : Timeline α) : List (Clip α) :=
  t.visualClips.mergeSort t.laneLe ++ t.heardClips

/-- Whether the media of a track's clips are looked up. -/
def Track.isUsed (track : Track α) : Bool := track.isVisual || track.kind == .audio && !track.muted

theorem Timeline.mem_lookedUp {clip : Clip α} : clip ∈ t.lookedUp ↔
    ∃ track ∈ t.tracks, track.isUsed = true ∧ clip ∈ track.clips := by
  simp only [lookedUp, List.mem_append, List.mem_mergeSort, visualClips, heardClips,
    (sortByStart_perm _).mem_iff, List.mem_flatMap, List.mem_filter, Track.isUsed, Bool.or_eq_true]
  constructor
  · rintro (⟨track, ⟨ht, hv⟩, hc⟩ | ⟨track, ⟨ht, hv⟩, hc⟩)
    · exact ⟨track, ht, .inl hv, hc⟩
    · exact ⟨track, ht, .inr hv, hc⟩
  · rintro ⟨track, ht, hv | hv, hc⟩
    · exact .inl ⟨track, ⟨ht, hv⟩, hc⟩
    · exact .inr ⟨track, ⟨ht, hv⟩, hc⟩

omit [Scalar α] in
theorem firstMissing?_append (xs ys : List (Clip α)) :
    firstMissing? library (xs ++ ys) = (firstMissing? library xs <|> firstMissing? library ys) := by
  simp [firstMissing?]

/-- Why compiling fails: what is not found, what is not there, or what cannot be made. -/
theorem compile_eq_error (h : t.Homed) {e : CompileError α}
    (he : compile t library settings font = .error e) :
    (∃ clip, firstMissing? library t.lookedUp = some clip ∧ e = .missingMedia clip) ∨
    firstMissing? library t.lookedUp = none ∧
      (t.visualClips = [] ∧ e = .empty ∨
        t.visualClips ≠ [] ∧
          ((∃ g video, (Scene.ofSettings t library settings).addOverlays font t.pictureLength g video
              t.overlays = .error e) ∨
            ∃ m, (Scene.ofSettings t library settings).addHeard t.pictureLength m t.heardClips =
              .error e)) := by
  have hkeys : (Timeline.laneKeys (t.visualClips.mergeSort t.laneLe) t.transitions).all
      (Label.isKey α) = true := List.all_eq_true.2 fun id _ => Label.isKey_text id
  rw [Timeline.lookedUp, firstMissing?_append]
  unfold compile at he
  rw [h.lane_eq] at he
  simp only [bind, Except.bind] at he
  split at he
  next clip hclip => exact .inl ⟨clip, hclip, (Except.error.inj he).symm⟩
  next hfound =>
  refine .inr ⟨hfound, ?_⟩
  split at he
  next hnil =>
    have hperm := (List.mergeSort_perm t.visualClips t.laneLe).symm
    rw [List.isEmpty_iff.1 hnil, List.perm_nil] at hperm
    exact .inl ⟨hperm, (Except.error.inj he).symm⟩
  next hne =>
  -- a text can always be a key
  rw [hkeys] at he
  refine .inr ⟨fun hnil => hne (by simp [hnil]), ?_⟩
  simp only [Bool.not_true, Bool.false_eq_true, if_false] at he
  split at he
  next hdrawn => exact .inl ⟨_, _, hdrawn.trans (congrArg _ (Except.error.inj he))⟩
  next =>
  split at he
  next hm => exact .inr ⟨_, hm.trans (congrArg _ (Except.error.inj he))⟩
  · cases he

theorem compile_measurable (h : t.Homed) {c : Compiled α}
    (hc : compile t library settings font = .ok c) :
    firstMissing? library t.lookedUp = none ∧ t.visualClips ≠ [] ∧
      t.Measurable library settings font t.pictureLength := by
  obtain ⟨lane, hlane, drawn, hdrawn, m, hm, -⟩ := compile_eq_ok hc
  cases h.lane_eq.symm.trans hlane
  refine ⟨?_, fun hnil => ?_, Scene.addOverlays_ok_iff.1 ⟨_, hdrawn⟩,
    (Scene.addHeard_ok_iff fun clip hclip => h.lastTrack? hclip).1 ⟨_, hm⟩⟩
  · rw [Timeline.lookedUp, firstMissing?_append]
    unfold compile at hc
    rw [h.lane_eq] at hc
    simp only [bind, Except.bind] at hc
    split at hc
    · cases hc
    next hfound => exact hfound
  · unfold compile at hc
    rw [h.lane_eq] at hc
    simp only [bind, Except.bind, hnil, List.mergeSort_nil, List.isEmpty_nil, if_true] at hc
    split at hc <;> cases hc

/-- **How compiling comes out.** Where each clip names its own track, a medium is missing just
when the first clip without its medium is named, nothing is seen just when no visual track holds
a clip, and a graph is made just when all is found, something is seen and all numbers can be
measured. -/
theorem compile_outcome (h : t.Homed) (library : Library α) (settings : ExportSettings)
    (font : String) :
    (∀ clip, compile t library settings font = .error (.missingMedia clip) ↔
      firstMissing? library t.lookedUp = some clip) ∧
    (compile t library settings font = .error .empty ↔
      firstMissing? library t.lookedUp = none ∧ t.visualClips = []) ∧
    ((∃ c, compile t library settings font = .ok c) ↔
      firstMissing? library t.lookedUp = none ∧ t.visualClips ≠ [] ∧
        t.Measurable library settings font t.pictureLength) ∧
    (∀ e, compile t library settings font = .error e →
      (∃ clip, e = .missingMedia clip) ∨ e = .empty ∨
        (∃ cause, e = .unmeasurable cause) ∧
          ¬ t.Measurable library settings font t.pictureLength) := by
  cases hc : compile t library settings font with
  | ok c =>
    obtain ⟨hfound, hseen, hmeasurable⟩ := compile_measurable h hc
    simp [hfound, hseen, hmeasurable]
  | error e =>
    have hheard : ∀ clip ∈ t.heardClips,
        ∃ track, (Scene.ofSettings t library settings).timeline.lastTrack? clip.trackId = some track :=
      fun clip hclip => h.lastTrack? hclip
    rcases compile_eq_error h hc with ⟨clip, hclip, rfl⟩ | ⟨hfound, ⟨hnil, rfl⟩ | ⟨hseen, hstop⟩⟩
    · exact ⟨fun other => by simp [hclip], by simp [hclip], by simp [hclip], by simp⟩
    · simp [hfound, hnil]
    · have hcause : (∃ cause, e = .unmeasurable cause) ∧
          ¬ t.Measurable library settings font t.pictureLength := by
        rcases hstop with ⟨g, video, hdrawn⟩ | ⟨m, hm⟩
        · refine ⟨Scene.addOverlays_eq_error hdrawn, fun hmeasurable => ?_⟩
          obtain ⟨r, hr⟩ := Scene.addOverlays_ok_iff.2 hmeasurable.texts
          rw [hdrawn] at hr
          cases hr
        · refine ⟨Scene.addHeard_eq_error hheard hm, fun hmeasurable => ?_⟩
          obtain ⟨r, hr⟩ := (Scene.addHeard_ok_iff hheard).2 hmeasurable.sounds
          rw [hm] at hr
          cases hr
      obtain ⟨⟨cause, rfl⟩, hnot⟩ := hcause
      simp [hfound, hseen, hnot]

end General

/-! ## In exact arithmetic -/

theorem measure_rat (x : Rat) : ∃ n, measure x = .ok n := ⟨_, rfl⟩

theorem Overlay.drawn_rat (o : Overlay Rat) (width height : Int) (start finish : Rat) (font : String) :
    ∃ f, o.drawn (.whole width) (.whole height) start finish font = .ok f := ⟨_, rfl⟩

namespace Timeline

variable {t : Timeline Rat}

theorem measurable_rat (t : Timeline Rat) (library : Library Rat) (settings : ExportSettings)
    (font : String) (total : Rat) : t.Measurable library settings font total :=
  ⟨fun o _ _ => o.drawn_rat .., fun _ _ _ => measure_rat _⟩

theorem Reachable.homed (h : t.Reachable) : t.Homed :=
  fun track ht c hc => ((h.sound track ht).clips c hc).home

/-- Where all numbers are exact, no failure is without a code. -/
theorem Reachable.code?_of_error (h : t.Reachable) {library : Library Rat} {settings : ExportSettings}
    {font : String} {e : CompileError Rat} (he : compile t library settings font = .error e) :
    ∃ code, e.code? = some code := by
  rcases (compile_outcome h.homed library settings font).2.2.2 e he with
    ⟨clip, rfl⟩ | rfl | ⟨-, hnot⟩
  · exact ⟨_, rfl⟩
  · exact ⟨_, rfl⟩
  · exact absurd (t.measurable_rat ..) hnot

/-- **A timeline that is reached compiles or says what it lacks.** Where all numbers are exact,
it names the first clip whose medium is missing, if there is one, says that nothing is seen, if
that is so, and is compiled otherwise; it fails for no other cause. -/
theorem Reachable.compile_answers (h : t.Reachable) (library : Library Rat)
    (settings : ExportSettings) (font : String) :
    (∀ clip, compile t library settings font = .error (.missingMedia clip) ↔
      firstMissing? library t.lookedUp = some clip) ∧
    (compile t library settings font = .error .empty ↔
      firstMissing? library t.lookedUp = none ∧ t.visualClips = []) ∧
    ((∃ c, compile t library settings font = .ok c) ↔
      firstMissing? library t.lookedUp = none ∧ t.visualClips ≠ []) ∧
    (∀ e, compile t library settings font = .error e → ∃ code, e.code? = some code) := by
  obtain ⟨hmissing, hempty, hok, -⟩ := compile_outcome h.homed library settings font
  refine ⟨hmissing, hempty, ?_, fun e he => h.code?_of_error he⟩
  rw [hok, and_iff_left (t.measurable_rat ..)]

theorem roughCut_answers :
    (∃ clip, compile roughCut ⟨[]⟩ .default "font" = .error (.missingMedia clip) ∧ clip.id = "a") ∧
      ∃ c, compile roughCut ⟨[take .video]⟩ .default "font" = .ok c := by
  have hmissing : (firstMissing? ⟨[]⟩ roughCut.lookedUp).map (·.id) = some "a" := by cbv
  have hfound : (firstMissing? ⟨[take .video]⟩ roughCut.lookedUp).isNone = true := by cbv
  have hseen : roughCut.visualClips.isEmpty = false := by cbv
  obtain ⟨clip, hclip, hid⟩ := Option.map_eq_some_iff.1 hmissing
  have hempty := roughCut_reachable.compile_answers ⟨[]⟩ .default "font"
  have hfull := roughCut_reachable.compile_answers ⟨[take .video]⟩ .default "font"
  exact ⟨⟨clip, (hempty.1 clip).2 hclip, hid⟩,
    hfull.2.2.1.2 ⟨Option.isNone_iff_eq_none.1 hfound, by simpa using hseen⟩⟩

end Timeline

/-- **A dry run is answered** where the timelines are reached and all numbers are exact: it is
carried out, or the project is not there, or the timeline lacks something. -/
theorem Studio.dryRun_answers {s : Studio Rat} (h : ∀ p ∈ s.projects, p.current.Reachable)
    (r : RenderRequest) :
    (∃ result, s.dryRun r = .ok result) ∨
      ∃ e body, s.dryRun r = .error e ∧
        (Response.unrendered e = .failed 404 body ∨ Response.unrendered e = .failed 422 body) := by
  unfold Studio.dryRun
  cases hplan : s.buildPlan r with
  | ok plan => exact .inl ⟨_, rfl⟩
  | error e =>
    refine .inr ⟨e, ?_⟩
    unfold Studio.buildPlan at hplan
    split at hplan
    · cases hplan
      exact ⟨_, rfl, .inl rfl⟩
    next p hp =>
    split at hplan <;> cases hplan
    next e he =>
    obtain ⟨code, hcode⟩ := (h p (List.mem_of_find?_eq_some hp)).code?_of_error he
    refine ⟨.object (Envelope.unrenderable code e.message e.details).fields, rfl, .inr ?_⟩
    rw [Response.unrendered, Envelope.ofCompileError?, hcode]
    rfl

/-! ## In doubles -/

/-- A size of letters that is too large for a double. -/
def hugeSize : Int := 10 ^ 155 * 10 ^ 155

theorem exactSize?_hugeSize {o : Overlay Float} (hsize : o.fontSize = hugeSize) :
    o.exactSize? (.whole 1920) = none := by
  have hnone : (Binary64.nearest (mkRat (hugeSize * 1920) 600)).isNone = true := by decide +kernel
  show Binary64.nearest (mkRat (o.fontSize * 1920) 600) = none
  rw [hsize]
  exact Option.isNone_iff_eq_none.1 hnone

/-- A timeline that lacks nothing and shows letters of this size in a frame of this width is not
compiled. -/
theorem compile_hugeSize {t : Timeline Float} {library : Library Float} {settings : ExportSettings}
    {font : String} (h : t.Homed) (hfound : firstMissing? library t.lookedUp = none)
    (hseen : t.visualClips ≠ []) (hwidth : (settings.frame t.aspectRatio).1 = 1920)
    {o : Overlay Float} (ho : o ∈ t.overlays) (hsize : o.fontSize = hugeSize)
    (hshows : Scene.shows t.pictureLength o = true) :
    ∃ cause, compile t library settings font = .error (.unmeasurable cause) := by
  obtain ⟨hmissing, hempty, hok, hfails⟩ := compile_outcome h library settings font
  cases hc : compile t library settings font with
  | ok c =>
    obtain ⟨f, hf⟩ := (hok.1 ⟨c, hc⟩).2.2.texts o ho hshows
    rw [Overlay.drawn, Overlay.pixelSize, Scene.ofSettings, hwidth, exactSize?_hugeSize hsize] at hf
    cases hf
  | error e =>
    rcases hfails e hc with ⟨clip, rfl⟩ | rfl | ⟨⟨cause, rfl⟩, -⟩
    · rw [(hmissing clip).1 hc] at hfound
      cases hfound
    · exact absurd (hempty.1 hc).2 hseen
    · exact ⟨cause, rfl⟩

namespace Studio

def poster : Asset Float where
  name := "poster"
  kind := .image
  source := "poster"
  duration := none
  width := none
  height := none
  hasAudio := false
  id := "m"
  created := .tick 0

/-- A studio that was asked for a project, a picture on a track of it, and a text over the picture in
letters of this size. -/
def titling : Studio Float :=
  ({ vacant [] (Environment.historyLimit []) with library := ⟨[poster]⟩ } : Studio Float).answerAll promptly [
    ⟨"POST", ⟨["video", "timelines"], []⟩, .data (.object [])⟩,
    ⟨"POST", ⟨["video", "timelines", "id1", "tracks"], []⟩, .data (.object [])⟩,
    ⟨"POST", ⟨["video", "timelines", "id1", "clips"], []⟩,
      .data (.object [("track_id", .text "id2"), ("media_id", .text "m")])⟩,
    ⟨"POST", ⟨["video", "timelines", "id1", "text-overlays"], []⟩,
      .data (.object [("text", .text "T"), ("font_size", .int hugeSize)])⟩]

/-- The request to plan its project without rendering it. -/
def rehearsal : ApiRequest Float :=
  ⟨"POST", ⟨["video", "render", "dry-run"], []⟩, .data (.object [("project_id", .text "id1")])⟩

/-- Its project lacks nothing, and yet it is not compiled, and the dry run has no answer. -/
theorem titling_breaks_down :
    titling.Served ∧ ∃ p, titling.project? "id1" = some p ∧
      firstMissing? titling.library p.current.lookedUp = none ∧ p.current.visualClips ≠ [] ∧
      ∃ cause, compile p.current titling.library .default titling.environment.font =
          .error (.unmeasurable cause) ∧
        ∀ runner, (titling.respond runner rehearsal).2 = .breakdown (.render (.unmeasurable cause)) := by
  have hseen : (titling.project? "id1").map (fun p =>
      ((firstMissing? titling.library p.current.lookedUp).isNone, p.current.visualClips.isEmpty,
        p.current.tracks.all fun track => track.clips.all fun c => c.trackId == track.id,
        p.current.overlays.any fun o => o.fontSize == hugeSize && Scene.shows p.current.pictureLength o,
        (ExportSettings.default.frame p.current.aspectRatio).1)) =
      some (true, false, true, true, 1920) := by decide +kernel
  obtain ⟨p, hp, hseen⟩ := Option.map_eq_some_iff.1 hseen
  simp only [Prod.mk.injEq, Option.isNone_iff_eq_none, List.isEmpty_eq_false_iff, List.all_eq_true,
    List.any_eq_true, Bool.and_eq_true, beq_iff_eq] at hseen
  obtain ⟨hfound, hvisual, hhomed, ⟨o, ho, hsize, hshows⟩, hwidth⟩ := hseen
  obtain ⟨cause, hcause⟩ : ∃ cause, compile p.current titling.library .default titling.environment.font =
      .error (.unmeasurable cause) := compile_hugeSize hhomed hfound hvisual hwidth ho hsize hshows
  have hplan : titling.dryRun ⟨"id1", .default, none, false⟩ = .error (.compile (.unmeasurable cause)) := by
    simp only [dryRun, buildPlan, hp, hcause]
    rfl
  have hroute : Endpoint.find rehearsal.method rehearsal.target.path = .ok .dryRun := by cbv
  have hbody : rehearsal.payload.read (RenderRequest.read .notBody) =
      .ok ⟨"id1", .default, none, false⟩ := by cbv
  refine ⟨.answerAll promptly _ (.opened [] ⟨[poster]⟩), p, hp, hfound, hvisual, cause, hcause,
    fun runner => ?_⟩
  rw [respond_eq hroute]
  simp only [serve, withBody, hbody, hplan]
  rfl

end Studio

end Montage
