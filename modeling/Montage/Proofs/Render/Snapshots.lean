/-
Jobs beside everything else that is asked of a studio.

A job is made of a plan of its project's timeline, kept as data. Edits, undo and redo, projects
and assets that come and go, and other jobs that are made, run and cancelled all leave what a
job was made of (`Studio.Kept.remembers_acts`), and the data reads back as the plan that was
written (`Plan.read_fields`). So whenever the job is run, its runner is handed the plan that was
made with it (`Studio.runJob_hands_plan`).
-/
import Montage.Number.Given
import Montage.Proofs.Edit.Steps
import Montage.Proofs.Export.Compiled
import Montage.Proofs.Render.Runs

namespace Montage

variable {α ι : Type}

/-! ## What a job was made of -/

/-- What a job keeps from the time it was made. -/
def Job.origin (j : Job α) : String × String × Option (Fields α) × Fields α × Instant :=
  (j.id, j.projectId, j.snapshot, j.request, j.created)

/-- Every job of one store is in another, made of the same. -/
def JobStore.Remembers (s u : JobStore α) : Prop :=
  ∀ id job, s.get? id = some job → ∃ later, u.get? id = some later ∧ later.origin = job.origin

namespace JobStore

variable {s u v : JobStore α} {job old : Job α} {id : String}

theorem Remembers.refl (s : JobStore α) : s.Remembers s := fun _ job hjob => ⟨job, hjob, rfl⟩

theorem Remembers.trans (h : s.Remembers u) (h' : u.Remembers v) : s.Remembers v := by
  intro id job hjob
  obtain ⟨later, hlater, hsame⟩ := h id job hjob
  obtain ⟨last, hlast, he⟩ := h' id later hlater
  exact ⟨last, hlast, he.trans hsame⟩

theorem Tidy.remembers_put (h : s.Tidy) (hold : s.get? id = some old) (hsame : job.origin = old.origin) :
    s.Remembers (s.put id job) := by
  intro other found hfound
  have hid : job.id = id := (congrArg Prod.fst hsame).trans (h.id_of_get? hold)
  rw [h.get?_put hold hid]
  split
  · next he =>
    rw [he, hold, Option.some.injEq] at hfound
    exact ⟨job, rfl, hfound ▸ hsame⟩
  · exact ⟨found, hfound, rfl⟩

theorem Tidy.remembers_insert (h : s.Tidy) (hnew : s.get? job.id = none) : s.Remembers (s.insert job) := by
  intro other found hfound
  rw [h.get?_insert hnew]
  split
  · next he =>
    rw [he, hnew] at hfound
    cases hfound
  · exact ⟨found, hfound, rfl⟩

end JobStore

namespace Studio

variable {s : Studio α ι}

theorem remembers_changeJob (h : s.store.Tidy) (id : String) {f : Job α → Job α}
    (hf : ∀ j, (f j).origin = j.origin) : s.store.Remembers (s.changeJob id f).store := by
  unfold changeJob
  split
  · next job hjob => exact h.remembers_put hjob (hf job)
  · exact .refl _

theorem remembers_cancelJob (h : s.store.Tidy) (id : String) :
    s.store.Remembers (s.cancelJob id).store := by
  unfold cancelJob
  split
  · exact .refl _
  next job hjob =>
  split
  · exact .refl _
  dsimp only
  split
  · exact h.remembers_put hjob rfl
  · exact .refl _

end Studio

/-! ## Plans as data -/

namespace Read

theorem texts_eq_valid (fault : Fault) (ss : List String) :
    list fault text (.texts ss : Json α) = .valid ss := by
  show Report.items text 0 (ss.map .text) = .valid ss
  rw [Report.items_eq_valid, List.forall₂_map_left_iff]
  exact List.forall₂_same.2 fun s _ => text_text s

theorem mappings_eq_valid (fault : Fault) (fss : List (Fields α)) :
    list fault mapping (.list (fss.map .object)) = .valid fss := by
  show Report.items mapping 0 (fss.map .object) = .valid fss
  rw [Report.items_eq_valid, List.forall₂_map_left_iff]
  exact List.forall₂_same.2 fun _ _ => rfl

end Read

theorem PlanStep.read_fields (x : PlanStep) : PlanStep.read (x.fields : Fields α) = .valid x := by
  unfold PlanStep.read
  simp only [PlanStep.fields, Fields.require, Fields.withDefault, Fields.get?_cons, String.reduceEq,
    if_true, if_false, Read.text_text, Read.texts_eq_valid]
  rfl

/-- A number format in which sums are plain numbers, even those of what was given as
booleans. -/
class PlainSums (α : Type) [Scalar α] : Prop where
  plain_zero : Scalar.plain (0.0 : α) = 0.0
  plain_add (x y : α) : Scalar.plain (x + y) = x + y

instance : PlainSums Rat := ⟨rfl, fun _ _ => rfl⟩

instance : PlainSums Float := ⟨rfl, fun _ _ => rfl⟩

variable [Scalar α]

instance : PlainSums (Given α) := ⟨rfl, fun _ _ => rfl⟩

theorem Scalar.plain_sum [PlainSums α] (xs : List α) : plain (sum xs) = sum xs := by
  have hfold (x : α) (hx : plain x = x) : plain (xs.foldl (· + ·) x) = xs.foldl (· + ·) x := by
    induction xs generalizing x with
    | nil => exact hx
    | cons y ys ih => exact ih (x + y) (PlainSums.plain_add x y)
  exact hfold 0.0 PlainSums.plain_zero

/-- A plan whose length is a plain number is read back as it was written. -/
theorem Plan.read_fields {p : Plan α} (h : Scalar.plain p.duration = p.duration) :
    Plan.read p.fields = .valid p := by
  have hsteps : Read.list .notList (Read.record PlanStep.read)
      (.list (p.steps.map fun x => .object (x.fields : Fields α))) = .valid p.steps :=
    read_list_eq_valid.2 (List.forall₂_same.2 fun x _ => x.read_fields)
  have hduration : Read.number (.real p.duration) = .valid p.duration := congrArg Report.valid h
  unfold Plan.read
  simp only [Plan.fields, Fields.require, Fields.withDefault, Fields.get?_cons, String.reduceEq, if_true,
    if_false, Read.texts_eq_valid, Read.mappings_eq_valid, hsteps, Read.text_text, hduration,
    Read.integer, Read.mapping]
  rfl

/-! ## Names are not taken back -/

section Names

variable {t u : Timeline α ι} {ids rest : Ids}

theorem Timeline.issued_le_addOverlay {text start overlayId : Json α} {trackId : Option String}
    {style : Fields α} (h : t.addOverlay text trackId start overlayId style ids = .ok (u, rest)) :
    ids.issued ≤ rest.issued := by
  rcases addOverlay_eq_ok.1 h with
    ⟨-, -, rfl⟩ | ⟨v, more, id, place, o, htrack, -, -, -, -, rfl⟩
  · exact le_rfl
  have hle : ids.issued ≤ more.issued := by
    unfold overlayTrack at htrack
    split at htrack
    · split at htrack
      · split at htrack <;> cases htrack
        exact le_rfl
      · cases htrack
    · split at htrack
      · cases htrack
        exact le_rfl
      · obtain ⟨track, -, he⟩ := Option.map_eq_some_iff.1 htrack
        cases he
        exact ids.le_choose none
  split
  · exact hle.trans (Nat.le_succ _)
  · exact hle

variable [Label ι α]

theorem Ids.le_chooseLabel (ids : Ids) (given : Option ι) :
    ids.issued ≤ (chooseLabel α ids given).2.issued := by
  unfold chooseLabel
  split
  · exact le_rfl
  · exact Nat.le_succ _

variable [BEq ι]

theorem Timeline.issued_le_detachAudio {videoId : ι} {audioId : Option ι}
    (h : t.detachAudio videoId audioId ids = .ok (u, rest)) : ids.issued ≤ rest.issued := by
  unfold detachAudio at h
  split at h
  · cases h
    exact le_rfl
  next video hvideo =>
  have hle (t : Timeline α ι) : ids.issued ≤ (t.audioTrack ids).2.1.issued := by
    unfold audioTrack
    split
    · exact le_rfl
    · exact ids.le_choose none
  specialize hle (if isDetached video then t.repairLinks else t)
  dsimp only at h
  split at h
  · next he =>
    cases h
    rw [he] at hle
    exact hle
  · next he =>
    rw [he] at hle
    obtain ⟨audio, -, h⟩ := bind_eq_ok.1 h
    cases h
    exact hle.trans (Ids.le_chooseLabel _ _)

theorem Edit.issued_le_run {e : Edit α ι} (h : e.run t ids = .ok (u, rest)) :
    ids.issued ≤ rest.issued := by
  cases e with
  | addTrack kind name trackId =>
    cases h
    exact ids.le_choose trackId
  | addClip trackId asset start clipId =>
    obtain rfl := congrArg Prod.snd (Except.ok.inj h)
    unfold Timeline.addClip
    split
    · exact le_rfl
    · exact ids.le_choose clipId
  | splitClip clipId time newId =>
    obtain rfl := congrArg Prod.snd (Except.ok.inj h)
    unfold Timeline.splitClip
    split
    · exact le_rfl
    · split
      · exact le_rfl
      · dsimp only
        split <;> exact Ids.le_chooseLabel ids newId
  | setTransition clipId kind duration side =>
    obtain rfl := congrArg Prod.snd (Except.ok.inj h)
    unfold Timeline.setTransition
    split
    · exact le_rfl
    · split
      · exact le_rfl
      · exact Nat.le_succ _
  | detachAudio videoId audioId => exact Timeline.issued_le_detachAudio h
  | addOverlay text trackId start overlayId style => exact Timeline.issued_le_addOverlay h
  | setAspectRatio | updateClip | trimClip | resizeClip | setClipAudioMuted | updateOverlay | setLook =>
    obtain ⟨v, -, he⟩ := map_eq_ok.1 h
    cases he
    exact le_rfl
  | _ =>
    cases h
    exact le_rfl

theorem Edit.issued_le_apply {e : Edit α ι} (h : e.apply t ids = .ok (u, rest)) :
    ids.issued ≤ rest.issued := by
  unfold apply at h
  split at h
  · exact issued_le_run h
  · cases h

end Names

namespace Studio

variable {s u : Studio α ι} {job : Job α} {id : String}

/-! ## Calls about jobs -/

theorem remembers_startJob (h : s.store.Tidy) (hjob : s.store.get? id = some job) :
    s.store.Remembers (s.startJob job).store := by
  obtain rfl := h.id_of_get? hjob
  have hput : s.store.Remembers (s.store.put job.id ({ job with
      status := .running, progress := 0.0, error := none, finished := none }.stamp
        (.tick (s.clock + 1)))) := h.remembers_put hjob rfl
  unfold startJob
  dsimp only
  split <;> exact hput

namespace Kept

theorem remembers_cancels (ids : List String) (h : s.Kept) :
    s.store.Remembers (ids.foldl Studio.cancelJob s).store := by
  induction ids generalizing s with
  | nil => exact .refl _
  | cons id ids ih => exact (remembers_cancelJob h.tidy id).trans (ih (h.cancelJob id).kept)

theorem remembers_follow (c : Conduct α) (h : s.Kept) (hrunning : s.Running id) :
    s.store.Remembers (follow id s c).store := by
  induction c generalizing s with
  | report x next ih =>
    obtain ⟨hstep, hrunning⟩ := h.report hrunning x
    have hreport : s.store.Remembers
        (s.changeJob id fun j => { j with progress := Job.fraction x }).store :=
      remembers_changeJob h.tidy id fun _ => rfl
    exact hreport.trans (ih hstep.kept hrunning)
  | cancel chosen next ih =>
    obtain ⟨htrail, hrunning⟩ := h.trail_cancels ((s.store.toList.filter chosen).map (·.id)) hrunning
    exact (h.remembers_cancels _).trans (ih (htrail.kept h) hrunning)
  | look cancelled otherwise ihc iho =>
    rw [follow]
    split
    · exact ihc h hrunning
    · exact iho h hrunning
  | finish outcome =>
    have hend (j : Job α) : (endJob j outcome).origin = j.origin := by cases outcome <;> rfl
    exact remembers_changeJob (s := { s with flags := s.flags.filter (·.1 != id) }) h.tidy id hend

theorem remembers_runJob (h : s.Kept) (runner : Runner α) (id : String) :
    s.store.Remembers (s.runJob runner id).1.store := by
  unfold runJob
  split
  · exact .refl _
  next job hjob =>
  split
  · exact .refl _
  next hruns =>
  obtain ⟨hstep, -, hrunning⟩ := h.startJob hjob (by simpa using hruns)
  have hstart := remembers_startJob h.tidy hjob
  dsimp only
  split
  · exact hstart
  · have hcalled : ({ s.startJob job with runs := (s.startJob job).runs + 1 } : Studio α ι).Kept :=
      ⟨hstep.kept.tidy, hstep.kept.coherent, hstep.kept.issued, hstep.kept.flagged, hstep.kept.calm⟩
    exact hstart.trans (hcalled.remembers_follow _ hrunning)

theorem remembers_createJob [BEq ι] [Label ι α] (h : s.Kept) {r : RenderRequest}
    (hu : s.createJob r = .ok (u, job)) :
    s.store.Remembers u.store ∧ u.store.get? job.id = some job := by
  obtain ⟨plan, -, he⟩ := map_eq_ok.1 hu
  cases he
  exact ⟨h.tidy.remembers_insert h.get?_next, (h.tidy.get?_insert h.get?_next _).trans (if_pos rfl)⟩

/-- What is not about jobs leaves them as they are. -/
theorem beside (h : s.Kept) (hstore : u.store = s.store) (hflags : u.flags = s.flags)
    (hids : s.ids.issued ≤ u.ids.issued) : u.Kept where
  tidy := hstore ▸ h.tidy
  coherent := hstore ▸ h.coherent
  issued id job hjob := by
    obtain ⟨n, hn, he⟩ := h.issued id job (hstore ▸ hjob)
    exact ⟨n, hn.trans_le hids, he⟩
  flagged := by
    rw [hstore, hflags]
    exact h.flagged
  calm id job hjob hruns := by
    rw [isCancelled, hflags]
    exact h.calm id job (hstore ▸ hjob) hruns

theorem remembers_beside (h : s.Kept) (hstore : u.store = s.store) (hflags : u.flags = s.flags)
    (hids : s.ids.issued ≤ u.ids.issued) : u.Kept ∧ s.store.Remembers u.store :=
  ⟨h.beside hstore hflags hids, hstore ▸ .refl _⟩

end Kept

/-! ## Whatever is asked of a studio -/

end Studio

/-- What can be asked of a studio, about projects, media and jobs. -/
inductive StudioCall (α ι : Type) where
  | create (t : Timeline α ι)
  | delete (projectId : String)
  | edit (projectId : String) (e : Edit α ι)
  | undo (projectId : String)
  | redo (projectId : String)
  | register (r : Registration α)
  | receive (fs : Fields α)
  | discard (assetId : String)
  | job (call : JobCall α)

namespace Studio

variable [BEq ι] [Label ι α] {s u v : Studio α ι} {job : Job α}

omit [Scalar α] [BEq ι] [Label ι α] in
/-- The studio after something was done to a project, if there is one of this id. -/
def amend (s : Studio α ι) (projectId : String) (f : Project α ι → Studio α ι) : Studio α ι :=
  match s.project? projectId with
  | some p => f p
  | none => s

/-- The studio after a call; one that is refused does nothing. -/
def act (s : Studio α ι) : StudioCall α ι → Studio α ι
  | .create t => (s.createProject t).1
  | .delete projectId => s.deleteProject projectId
  | .edit projectId e => s.amend projectId fun p =>
    match s.edit p e with
    | .ok u => u
    | .error _ => s
  | .undo projectId => s.amend projectId s.undo
  | .redo projectId => s.amend projectId s.redo
  | .register r => (s.register r).1
  | .receive fs =>
    match s.receive fs with
    | .valid u => u
    | .invalid _ => s
  | .discard assetId => s.deleteAsset assetId
  | .job call => s.after call

omit [Scalar α] [BEq ι] [Label ι α] in
theorem putProject_eq (s : Studio α ι) (p : Project α ι) :
    ∃ projects, s.putProject p = { s with projects } := by
  unfold putProject
  split
  · exact ⟨_, rfl⟩
  · exact ⟨_, rfl⟩

omit [BEq ι] [Label ι α] in
theorem Kept.remembers_put (h : s.Kept) (p : Project α ι) {ids : Ids} (hids : s.ids.issued ≤ ids.issued) :
    (putProject { s with ids } p).Kept ∧ s.store.Remembers (putProject { s with ids } p).store := by
  obtain ⟨projects, hput⟩ := putProject_eq { s with ids } p
  rw [hput]
  exact h.remembers_beside rfl rfl hids

omit [BEq ι] [Label ι α] in
theorem Kept.remembers_amend (h : s.Kept) {projectId : String} {f : Project α ι → Studio α ι}
    (hf : ∀ p, (f p).Kept ∧ s.store.Remembers (f p).store) :
    (s.amend projectId f).Kept ∧ s.store.Remembers (s.amend projectId f).store := by
  unfold amend
  split
  · exact hf _
  · exact ⟨h, .refl _⟩

theorem Kept.remembers_edit (h : s.Kept) {p : Project α ι} {e : Edit α ι} (hu : s.edit p e = .ok u) :
    u.Kept ∧ s.store.Remembers u.store := by
  obtain ⟨⟨q, ids⟩, hq, rfl⟩ := map_eq_ok.1 hu
  obtain ⟨⟨t, rest⟩, ht, he⟩ := map_eq_ok.1 hq
  obtain rfl : rest = ids := congrArg Prod.snd he
  exact h.remembers_put q (Edit.issued_le_apply ht)

theorem Kept.remembers_after (h : s.Kept) (call : JobCall α) :
    s.store.Remembers (s.after call).store := by
  cases call with
  | create r =>
    unfold after
    dsimp only
    split
    · next u job hu => exact (h.remembers_createJob hu).1
    · exact .refl _
  | run runner id => exact h.remembers_runJob runner id
  | cancel id => exact remembers_cancelJob h.tidy id

/-- A call leaves every job that there is as it was made. -/
theorem Kept.remembers_act (h : s.Kept) (call : StudioCall α ι) :
    (s.act call).Kept ∧ s.store.Remembers (s.act call).store := by
  cases call with
  | create t => exact h.remembers_put _ (Nat.le_succ _)
  | delete projectId => exact h.remembers_beside rfl rfl le_rfl
  | edit projectId e =>
    refine h.remembers_amend fun p => ?_
    split
    · next u hu => exact h.remembers_edit hu
    · exact ⟨h, .refl _⟩
  | undo projectId => exact h.remembers_amend fun p => h.remembers_put p.undo le_rfl
  | redo projectId => exact h.remembers_amend fun p => h.remembers_put p.redo le_rfl
  | register r => exact h.remembers_beside rfl rfl (Nat.le_succ _)
  | receive fs =>
    unfold act
    dsimp only
    split
    · next u hu =>
      obtain ⟨asset, -, rfl⟩ := Report.map_eq_valid.1 hu
      refine h.remembers_beside rfl rfl ?_
      show s.ids.issued ≤ (if fs.has "id" then s.ids else s.ids.rest).issued
      split
      · exact le_rfl
      · exact Nat.le_succ _
    · exact ⟨h, .refl _⟩
  | discard assetId => exact h.remembers_beside rfl rfl le_rfl
  | job call => exact ⟨(h.trail_sightings call).kept h, h.remembers_after call⟩

theorem Kept.remembers_acts (calls : List (StudioCall α ι)) (h : s.Kept) :
    (calls.foldl act s).Kept ∧ s.store.Remembers (calls.foldl act s).store := by
  induction calls generalizing s with
  | nil => exact ⟨h, .refl _⟩
  | cons call calls ih =>
    obtain ⟨hkept, hremembers⟩ := h.remembers_act call
    obtain ⟨hlast, hrest⟩ := ih hkept
    exact ⟨hlast, hremembers.trans hrest⟩

/-- The plan that a studio makes is read back as it was written. -/
theorem read_plan [PlainSums α] {r : RenderRequest} {plan : Plan α} (h : s.buildPlan r = .ok plan) :
    Plan.read plan.fields = .valid plan := by
  unfold buildPlan at h
  split at h
  · cases h
  split at h
  · cases h
  next c hc =>
  cases h
  obtain ⟨lane, -, _, -, _, -, -, -, -, -, hduration⟩ := compile_eq_ok hc
  refine Plan.read_fields ?_
  show Scalar.plain c.duration = c.duration
  rw [hduration]
  exact Scalar.plain_sum _

/-- **A job runs the plan that it was made with.** Take a studio that starts without jobs and is
asked for anything, then for a job, and then for anything again: edits, undo and redo, projects
and assets made and deleted, other jobs made, run and cancelled, this one run and cancelled. The
job is still there, and whatever runner it is run with, the runner is handed the plan that was
built when the job was made, or is not called because the job is running or at its end. -/
theorem runJob_hands_plan [PlainSums α] (hstore : s.store = ∅) (hflags : s.flags = [])
    (before after : List (StudioCall α ι)) {r : RenderRequest}
    (hmade : (before.foldl act s).createJob r = .ok (u, job)) :
    let v := after.foldl act u
    ∃ plan, (before.foldl act s).buildPlan r = .ok plan ∧
      ∃ later, v.store.get? job.id = some later ∧
        ∀ runner : Runner α, v.runJob runner job.id =
          if runs? later.status then
            (follow job.id { v.startJob later with runs := v.runs + 1 } (runner v.runs plan), .ok ())
          else (v, .ok ()) := by
  intro v
  have hkept : (before.foldl act s).Kept := ((Kept.vacant hstore hflags).remembers_acts before).1
  have hthere := (hkept.remembers_createJob hmade).2
  obtain ⟨hlast, hremembers⟩ := (hkept.createJob hmade).kept.remembers_acts after
  obtain ⟨later, hlater, horigin⟩ := hremembers job.id job hthere
  obtain ⟨plan, hplan, he⟩ := map_eq_ok.1 hmade
  cases he
  have hsnapshot : later.snapshot = some plan.fields := congrArg (·.2.2.1) horigin
  refine ⟨plan, hplan, later, hlater, fun runner => ?_⟩
  simp only [runJob, v, hlater, hsnapshot, Option.getD_some, read_plan hplan]
  cases hruns : runs? later.status with
  | false => rfl
  | true =>
    have hcount := (hlast.startJob hlater hruns).1.runs
    simp [hcount]

/-- What is asked of the booth around a job: its project is edited and deleted, its picture too,
and another job is made and cancelled by the first run of the one at hand, which fails. -/
def errands : List (StudioCall Rat String) := [
  .edit "p" (.setProjectName (.text "cut")),
  .edit "p" (.removeClip "c"),
  .undo "p",
  .register ⟨"n", .video, "n.mp4", some 5, none, none, true⟩,
  .job (.create ⟨"p", .default, some "late.mp4", false⟩),
  .discard "m",
  .job (.run (fun _ _ => .report (1 / 2) (.cancel (fun job => job.status == .queued)
    (.finish (.crashed ⟨"OSError", "disk"⟩)))) "id1"),
  .delete "p"]

theorem errands_hand_plan : ∃ u job plan later,
    booth.createJob ⟨"p", .default, none, false⟩ = .ok (u, job) ∧
    booth.buildPlan ⟨"p", .default, none, false⟩ = .ok plan ∧
    (errands.foldl act u).project? "p" = none ∧
    (errands.foldl act u).store.get? job.id = some later ∧ later.status = .failed ∧
    ∀ runner : Runner Rat, (errands.foldl act u).runJob runner job.id =
      (follow job.id { (errands.foldl act u).startJob later with runs := 2 } (runner 1 plan), .ok ()) := by
  have hseen : (booth.createJob ⟨"p", .default, none, false⟩).toOption.map (fun made =>
      let v := errands.foldl act made.1
      ((v.store.get? made.2.id).map (·.status), v.runs, (v.project? "p").isNone)) =
        some (some .failed, 1, true) := by decide +kernel
  obtain ⟨⟨u, job⟩, hmade, hseen⟩ := Option.map_eq_some_iff.1 hseen
  replace hmade : booth.createJob ⟨"p", .default, none, false⟩ = .ok (u, job) := by
    cases hjob : booth.createJob ⟨"p", .default, none, false⟩ <;> rw [hjob] at hmade <;> cases hmade
    rfl
  simp only [Prod.mk.injEq, Option.isNone_iff_eq_none] at hseen
  obtain ⟨hstatus, hruns, hgone⟩ := hseen
  obtain ⟨plan, hplan, later, hlater, hrun⟩ :=
    runJob_hands_plan (s := booth) rfl rfl [] errands hmade
  rw [hlater, Option.map_some, Option.some.injEq] at hstatus
  refine ⟨u, job, plan, later, hmade, hplan, hgone, hlater, hstatus, fun runner => ?_⟩
  rw [hrun, hstatus, hruns]
  rfl

end Studio

end Montage
