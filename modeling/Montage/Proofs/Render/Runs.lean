/-
Every sequence of calls that make, run and cancel jobs, seen from outside.

A studio is seen when a runner is called, at each thing that the runner does, and after
each call (`Studio.sightings`, `Studio.watch`). From one sighting to the next the studio is
kept and each job goes on by at most one status (`Studio.Passes`); a whole sequence of calls
is a trail of such passages (`Studio.trail_watch`). So a job that has succeeded or was
cancelled stays so and is not run again, and no run starts on a job that is told to stop
(`Studio.watch_lawful`).
-/
import Montage.Proofs.Render.Jobs

namespace Montage

variable {α ι : Type}

/-- What can be asked about jobs. -/
inductive JobCall (α : Type) where
  | create (r : RenderRequest)
  | run (runner : Runner α) (id : String)
  | cancel (id : String)

/-- A studio as it is seen, and the job whose runner is called right then. -/
structure Sighting (α ι : Type) where
  studio : Studio α ι
  begins : Option String := none

variable [Scalar α]

namespace Studio

/-! ## What is seen -/

/-- The studio after each of some jobs is told to stop. -/
def cancels : Studio α ι → List String → List (Studio α ι)
  | _, [] => []
  | s, id :: ids => s.cancelJob id :: cancels (s.cancelJob id) ids

/-- The studio at each thing that a run does, and at its end. -/
def follows (id : String) : Studio α ι → Conduct α → List (Studio α ι)
  | s, .report fraction next =>
    let s := s.changeJob id fun j => { j with progress := Job.fraction fraction }
    s :: follows id s next
  | s, .cancel chosen next =>
    let ids := (s.store.toList.filter chosen).map (·.id)
    s.cancels ids ++ follows id (ids.foldl cancelJob s) next
  | s, .look cancelled otherwise =>
    s :: if s.isCancelled id then follows id s cancelled else follows id s otherwise
  | s, .finish outcome => [follow id s (.finish outcome)]

/-- The studio when the runner is called, if it is, and from then on to the end of the run. -/
def runSightings (s : Studio α ι) (runner : Runner α) (id : String) : List (Sighting α ι) :=
  match s.store.get? id with
  | none => [{ studio := s }]
  | some job =>
    if !runs? job.status then [{ studio := s }]
    else
      let s := s.startJob job
      match Plan.read (job.snapshot.getD []) with
      | .invalid _ => [{ studio := s }]
      | .valid plan =>
        let called : Studio α ι := { s with runs := s.runs + 1 }
        { studio := called, begins := some id } ::
          (follows id called (runner s.runs plan)).map fun u => { studio := u }

section Calls

variable [BEq ι] [Label ι α]

/-- The studio after a call. -/
def after (s : Studio α ι) : JobCall α → Studio α ι
  | .create r =>
    match s.createJob r with
    | .ok (u, _) => u
    | .error _ => s
  | .run runner id => (s.runJob runner id).1
  | .cancel id => s.cancelJob id

/-- What is seen during a call and after it. -/
def sightings (s : Studio α ι) : JobCall α → List (Sighting α ι)
  | .run runner id => s.runSightings runner id
  | call => [{ studio := s.after call }]

/-- What is seen during calls, one after the other. -/
def watch : Studio α ι → List (JobCall α) → List (Sighting α ι)
  | _, [] => []
  | s, call :: calls => s.sightings call ++ (s.after call).watch calls

end Calls

/-! ## From one sighting to the next -/

/-- A studio is next seen with its jobs moved on by at most one status each, and a job that is
run then is running and not told to stop. -/
structure Passes (s : Studio α ι) (x : Sighting α ι) : Prop where
  kept : x.studio.Kept
  moved : ∀ id, Job.Moved (s.store.get? id) (x.studio.store.get? id)
  runs : x.studio.runs = s.runs + x.begins.toList.length
  begins : ∀ id ∈ x.begins, x.studio.isCancelled id = false ∧ x.studio.Running id

/-- Sightings that lead from a studio to another one. -/
inductive Trail : Studio α ι → List (Sighting α ι) → Studio α ι → Prop where
  | stay (s : Studio α ι) : Trail s [] s
  | pass {s u : Studio α ι} {x : Sighting α ι} {xs : List (Sighting α ι)} :
      s.Passes x → Trail x.studio xs u → Trail s (x :: xs) u

variable {s u v : Studio α ι} {x y : Sighting α ι} {xs ys : List (Sighting α ι)} {id : String}

theorem Step.passes (h : s.Step u) : s.Passes { studio := u } := ⟨h.kept, h.moved, h.runs, by simp⟩

theorem Step.trail (h : s.Step u) : Trail s [{ studio := u }] u := .pass h.passes (.stay u)

namespace Trail

theorem append (h : Trail s xs u) (h' : Trail u ys v) : Trail s (xs ++ ys) v := by
  induction h with
  | stay s => exact h'
  | pass hx _ ih => exact .pass hx (ih h')

theorem kept (h : Trail s xs u) (hs : s.Kept) : u.Kept := by
  induction h with
  | stay s => exact hs
  | pass hx _ ih => exact ih hx.kept

theorem of_mem (h : Trail s xs u) (hx : x ∈ xs) : ∃ t : Studio α ι, t.Passes x := by
  induction h with
  | stay s => cases hx
  | @pass s u y xs hy _ ih =>
    rcases List.mem_cons.1 hx with rfl | hx
    · exact ⟨s, hy⟩
    · exact ih hx

theorem chain (h : Trail s xs u) (hx : x.studio = s) :
    (x :: xs).IsChain fun x y => ∀ id, Job.Moved (x.studio.store.get? id) (y.studio.store.get? id) := by
  induction h generalizing x with
  | stay s => exact .singleton x
  | pass hy _ ih => exact .cons_cons (hx ▸ hy.moved) (ih rfl)

theorem getLast?_eq (h : Trail s xs u) (hx : x.studio = s) :
    (x :: xs).getLast?.map (·.studio) = some u := by
  induction h generalizing x with
  | stay s => simp [hx]
  | pass _ _ ih =>
    rw [List.getLast?_cons_cons]
    exact ih rfl

theorem runs_eq (h : Trail s xs u) : u.runs = s.runs + (xs.filterMap (·.begins)).length := by
  induction h with
  | stay s => rfl
  | @pass s u x xs hx _ ih =>
    rw [ih, hx.runs, List.filterMap_cons]
    cases x.begins <;> simp +arith

end Trail

/-! ## Jobs that go on to nothing else -/

/-- Jobs that have succeeded or were cancelled are seen so later. -/
def Settles (x y : Sighting α ι) : Prop :=
  ∀ id job, x.studio.store.get? id = some job → job.status.nexts = [] →
    ∃ later, y.studio.store.get? id = some later ∧ later.status = job.status

omit [Scalar α] in
theorem Settles.trans {x y z : Sighting α ι} (h : Settles x y) (h' : Settles y z) : Settles x z := by
  intro id job hjob hend
  obtain ⟨later, hlater, hstatus⟩ := h id job hjob hend
  obtain ⟨last, hlast, hsame⟩ := h' id later hlater (hstatus ▸ hend)
  exact ⟨last, hlast, hsame.trans hstatus⟩

instance : Trans (Settles (α := α) (ι := ι)) Settles Settles := ⟨Settles.trans⟩

omit [Scalar α] in
theorem settles_of_moved
    (h : ∀ id, Job.Moved (x.studio.store.get? id) (y.studio.store.get? id)) : Settles x y := by
  intro id job hjob hend
  have hmoved := h id
  rw [hjob] at hmoved
  cases hlater : y.studio.store.get? id with
  | none =>
    rw [hlater] at hmoved
    cases hmoved
  | some later =>
    rw [hlater] at hmoved
    exact ⟨later, rfl, hmoved.resolve_right (by simp [hend])⟩

/-! ## Calls -/

theorem Kept.trail_cancels (ids : List String) (h : s.Kept) (hrunning : s.Running id) :
    Trail s ((s.cancels ids).map fun u => { studio := u }) (ids.foldl Studio.cancelJob s) ∧
      (ids.foldl Studio.cancelJob s).Running id := by
  induction ids generalizing s with
  | nil => exact ⟨.stay s, hrunning⟩
  | cons other ids ih =>
    have hstep := h.cancelJob other
    obtain ⟨htrail, hrunning⟩ := ih hstep.kept (h.running_cancelJob hrunning other)
    exact ⟨.pass hstep.passes htrail, hrunning⟩

theorem Kept.trail_follow (c : Conduct α) (h : s.Kept) (hrunning : s.Running id) :
    Trail s ((follows id s c).map fun u => { studio := u }) (follow id s c) := by
  induction c generalizing s with
  | report x next ih =>
    obtain ⟨hstep, hrunning⟩ := h.report hrunning x
    exact .pass hstep.passes (ih hstep.kept hrunning)
  | cancel chosen next ih =>
    obtain ⟨htrail, hrunning⟩ :=
      h.trail_cancels ((s.store.toList.filter chosen).map (·.id)) hrunning
    rw [follows, follow, List.map_append]
    exact htrail.append (ih (htrail.kept h) hrunning)
  | look cancelled otherwise ihc iho =>
    rw [follows, follow]
    refine .pass (Step.refl h).passes ?_
    split
    · exact ihc h hrunning
    · exact iho h hrunning
  | finish outcome => exact (h.finish hrunning outcome).trail

theorem Kept.trail_run (h : s.Kept) (runner : Runner α) (id : String) :
    Trail s (s.runSightings runner id) (s.runJob runner id).1 := by
  unfold runSightings runJob
  cases hjob : s.store.get? id with
  | none => exact (Step.refl h).trail
  | some job =>
    dsimp only
    split
    · exact (Step.refl h).trail
    next hruns =>
    obtain ⟨hstep, htold, hrunning⟩ := h.startJob hjob (by simpa using hruns)
    cases Plan.read (job.snapshot.getD []) with
    | invalid problems => exact hstep.trail
    | valid plan =>
      have hcalled : ({ s.startJob job with runs := (s.startJob job).runs + 1 } : Studio α ι).Kept :=
        ⟨hstep.kept.tidy, hstep.kept.coherent, hstep.kept.issued, hstep.kept.flagged, hstep.kept.calm⟩
      refine .pass ⟨hcalled, hstep.moved, congrArg (· + 1) hstep.runs, fun i hi => ?_⟩
        (hcalled.trail_follow _ hrunning)
      cases hi
      exact ⟨htold, hrunning⟩

variable [BEq ι] [Label ι α]

theorem Kept.trail_sightings (h : s.Kept) (call : JobCall α) :
    Trail s (s.sightings call) (s.after call) := by
  cases call with
  | create r =>
    refine Step.trail ?_
    cases hr : s.createJob r with
    | ok made =>
      simp only [after, hr]
      exact h.createJob hr
    | error e =>
      simp only [after, hr]
      exact .refl h
  | run runner id => exact h.trail_run runner id
  | cancel id => exact (h.cancelJob id).trail

theorem Kept.trail_watch (calls : List (JobCall α)) (h : s.Kept) :
    Trail s (s.watch calls) (calls.foldl Studio.after s) := by
  induction calls generalizing s with
  | nil => exact .stay s
  | cons call calls ih =>
    have htrail := h.trail_sightings call
    exact htrail.append (ih (htrail.kept h))

/-- **Jobs run lawfully.** Over any calls that make, run and cancel jobs, with any runners, a
studio that starts without jobs is seen with every job ended just when it has an end, failed
just when it has an error, and with a progress from zero to one, which is one when it has
succeeded. From one sighting to the next a job goes on by at most one status. A runner is
called only for a job that is running, is not told to stop, and has neither succeeded nor
been cancelled before; and every run is seen. -/
theorem watch_lawful (hstore : s.store = ∅) (hflags : s.flags = []) (calls : List (JobCall α)) :
    let seen : List (Sighting α ι) := { studio := s } :: s.watch calls
    (∀ x ∈ seen, ∀ job ∈ x.studio.store.jobs,
      (job.finished.isSome = true ↔ job.isTerminal = true) ∧
      (job.error.isSome = true ↔ job.status = .failed) ∧
      (job.progress = 0.0 ∨ job.progress = 1.0 ∨ 0.0 < job.progress ∧ job.progress < 1.0) ∧
      (job.status = .succeeded → job.progress = 1.0)) ∧
    (seen.IsChain fun x y => ∀ id, Job.Moved (x.studio.store.get? id) (y.studio.store.get? id)) ∧
    (seen.Pairwise fun x y => ∀ id ∈ y.begins, ∀ job, x.studio.store.get? id = some job →
      job.status ≠ .succeeded ∧ job.status ≠ .cancelled) ∧
    (∀ x ∈ seen, ∀ id ∈ x.begins, x.studio.isCancelled id = false ∧
      ∃ job, x.studio.store.get? id = some job ∧ job.status = .running) ∧
    seen.getLast?.map (·.studio) = some (calls.foldl Studio.after s) ∧
    (calls.foldl Studio.after s).runs = s.runs + (seen.filterMap (·.begins)).length := by
  intro seen
  have hkept : s.Kept := .vacant hstore hflags
  have htrail := hkept.trail_watch calls
  have hpasses : ∀ x ∈ seen, x.studio.Kept ∧ ∀ id ∈ x.begins, x.studio.isCancelled id = false ∧
      x.studio.Running id := by
    intro x hx
    rcases List.mem_cons.1 hx with rfl | hx
    · exact ⟨hkept, by simp⟩
    · obtain ⟨t, ht⟩ := htrail.of_mem hx
      exact ⟨ht.kept, ht.begins⟩
  have hchain := htrail.chain (x := { studio := s }) rfl
  refine ⟨fun x hx job hjob => ?_, hchain, ?_, fun x hx => (hpasses x hx).2, htrail.getLast?_eq rfl, ?_⟩
  · have hget := (hpasses x hx).1.tidy.get?_eq_some.2 ⟨hjob, rfl⟩
    have hcoherent := (hpasses x hx).1.coherent job.id job hget
    exact ⟨by rw [hcoherent.finished], hcoherent.error, hcoherent.progress, hcoherent.done⟩
  · have hsettles : seen.Pairwise Settles :=
      List.isChain_iff_pairwise.1 (hchain.imp fun _ _ => settles_of_moved)
    refine hsettles.imp_of_mem fun {x y} _ hy hxy id hid job hjob => ?_
    obtain ⟨run, hrun, hrunning⟩ := ((hpasses y hy).2 id hid).2
    rw [← not_or]
    intro hend
    have hnexts : job.status.nexts = [] := by rcases hend with he | he <;> rw [he] <;> rfl
    obtain ⟨later, hlater, hstatus⟩ := hxy id job hjob hnexts
    rw [hrun, Option.some.injEq] at hlater
    rw [← hstatus, ← hlater, hrunning] at hend
    simp at hend
  · rw [htrail.runs_eq]
    rfl

/-- A studio with one project, a picture shown for two seconds. -/
def booth : Studio Rat where
  environment := []
  historyLimit := 50
  ids := .start
  clock := 0
  projects := [.new "p" {
    projectName := .text "still"
    aspectRatio := .wide
    tracks := [{
      id := "v"
      name := "Video 1"
      kind := .video
      clips := [⟨"c", "m", "v", .image, "", 0, 2, 0, 0, none, none, false, none, none⟩]
      muted := false
      locked := false
      gain := 1 }]
    overlays := []
    transitions := []
    looks := [] }]
  library := ⟨[⟨⟨"m", .image, "m.png", none, none, none, false⟩, "m", .tick 0⟩]⟩
  store := ∅
  flags := []
  runs := 0

/-- A job that crashes after it was told to stop, and then succeeds when it is run again. -/
def takes : List (JobCall Rat) := [
  .create ⟨"p", .default, none, false⟩,
  .run (fun _ _ =>
    .report (1 / 2) (.cancel (fun _ => true) (.finish (.crashed ⟨"OSError", "disk"⟩)))) "id1",
  .run (fun _ plan =>
    .report 2 (.look (.finish .cancelled) (.finish (.produced (some plan.output))))) "id1",
  .cancel "id1"]

theorem takes_lawful :
    (booth.watch takes).map (fun x => (x.begins, x.studio.store.jobs.map fun job =>
      (job.status, job.progress, job.error))) = [
      (none, [(.queued, 0, none)]),
      (some "id1", [(.running, 0, none)]),
      (none, [(.running, 1 / 2, none)]),
      (none, [(.running, 1 / 2, none)]),
      (none, [(.failed, 1 / 2, some "OSError: disk")]),
      (some "id1", [(.running, 0, none)]),
      (none, [(.running, 1, none)]),
      (none, [(.running, 1, none)]),
      (none, [(.succeeded, 1, none)]),
      (none, [(.succeeded, 1, none)])] ∧
    (∀ x ∈ booth.watch takes, ∀ id ∈ x.begins, x.studio.isCancelled id = false) ∧
    (takes.foldl Studio.after booth).runs = 2 := by
  obtain ⟨-, -, -, hbegins, -, hruns⟩ := watch_lawful (s := booth) rfl rfl takes
  have hcalled : ((booth.watch takes).filterMap (·.begins)).length = 2 := by decide +kernel
  refine ⟨by decide +kernel, fun x hx id hid => (hbegins x (.tail _ hx) id hid).1, ?_⟩
  rw [hruns, List.filterMap_cons_none rfl, hcalled]
  rfl

end Studio

end Montage
