/-
What a run of the engine leaves on the disk, however it ends.

The process writes beside the output, and until what it wrote is moved into place nothing else
is touched: a run that fails before removes it, and one that moves it delivers just that. It
stays only where the disk refuses to move it (`Engine.Ends.refused`).
-/
import Montage.Engine.Run
import Montage.Proofs.Engine.Disks

namespace Montage

namespace Engine

variable {α : Type} {writes : Option String} {part out : Path} {before after next : Disk}

/-! ## Disks before, in and after a run -/

/-- A disk on which all but the file of `part` is kept. -/
structure Spared (part out : Path) (before after : Disk) : Prop where
  others : ∀ place, after.place part ≠ .ok place → before.Keeps after place
  output : ∀ place, after.place out = .ok place → before.Keeps after place

/-- A disk on which a process, if it wrote, wrote the file of `part`. -/
structure Written (writes : Option String) (part out : Path) (before after : Disk) : Prop extends
    Spared part out before after where
  written : ∀ content ∈ writes, after.read? part = some (.file content)
  unwritten : writes = none → ∀ place, before.Keeps after place

/-- A disk on which what was at `part` has come to `out`: what the process wrote or, if it wrote
nothing, what stood there before. -/
structure Delivered (writes : Option String) (part out : Path) (before after : Disk) : Prop where
  gone : after.read? part = none
  written : ∀ content ∈ writes, after.read? out = some (.file content)
  unwritten : writes = none → ∀ content, after.read? out = some (.file content) →
    ∃ place, after.place part = .ok place ∧ before.entry? place = some (.file content)
  others : ∀ content, after.read? out = some (.file content) →
    ∀ place, after.place part ≠ .ok place → after.place out ≠ .ok place → before.Keeps after place

/-- How a run ends, and what it leaves. -/
inductive Ends (p : Subprocess α) (out : Path) (before : Disk) :
    Trace α × Except RunFailure String → Prop where
  /-- Nothing was started, and all is kept. -/
  | idle {t : Trace α} {failure : RunFailure} : t.started = none →
      (∀ place, before.Keeps t.disk place) → Ends p out before (t, .error failure)
  /-- The output is in its place. -/
  | delivered {t : Trace α} {part : Path} : out.unfinished? = some part →
      Delivered p.writes part out before t.disk → Ends p out before (t, .ok out.text)
  /-- The output is in its place, and the listener fails when it is told so. -/
  | unheard {t : Trace α} {part : Path} {c : Crash} : out.unfinished? = some part →
      Delivered p.writes part out before t.disk → Ends p out before (t, .error (.crash c))
  /-- The output is as it was, and nothing stays that is not whole. -/
  | withdrawn {t : Trace α} {part : Path} {failure : RunFailure} : out.unfinished? = some part →
      Spared part out before t.disk → (∀ content, t.disk.read? part ≠ some (.file content)) →
      (∀ cause, failure ≠ .disk ⟨cause, [part, out]⟩) → Ends p out before (t, .error failure)
  /-- The output is as it was, but what was not to be moved into its place stays. -/
  | refused {t : Trace α} {part : Path} {cause : DiskError} : out.unfinished? = some part →
      Spared part out before t.disk →
      (∀ content ∈ p.writes, t.disk.read? part = some (.file content)) →
      Ends p out before (t, .error (.disk ⟨cause, [part, out]⟩))

open Disk

theorem Spared.of_others (hpart : out.unfinished? = some part)
    (h : ∀ place, after.place part ≠ .ok place → before.Keeps after place) :
    Spared part out before after :=
  ⟨h, fun place hplace => h place fun hother =>
    (unfinished_apart (d := after) rfl hpart hplace hother).2.1 rfl⟩

theorem Spared.touched (h : Spared part out before after) (hpart : out.unfinished? = some part)
    (htouched : Touched part after next) : Spared part out before next := by
  refine .of_others hpart fun place hplace => ?_
  have hplace := mt htouched.place_eq_ok.2 hplace
  rw [Keeps, htouched.others place hplace]
  exact h.others place hplace

theorem Written.moved (h : Written writes part out before after) (hpart : out.unfinished? = some part)
    (hmove : after.move part out = .ok next) : Delivered writes part out before next := by
  obtain ⟨hgone, hfile, hothers⟩ := move_unfinished hpart hmove
  refine ⟨hgone, fun content hcontent => hfile content (h.written content hcontent),
    fun hnone content hcontent => ?_, fun content hcontent place hp hq => ?_⟩ <;>
    obtain ⟨halike, hread, hothers⟩ := hothers content hcontent
  · obtain ⟨place, hplace, hentry⟩ := read?_eq_some.1 hread
    exact ⟨place, halike.place_eq_ok.2 hplace, (h.unwritten hnone place).file hentry⟩
  · have hp := mt halike.place_eq_ok.2 hp
    rw [Keeps, hothers place hp (mt halike.place_eq_ok.2 hq)]
    exact h.others place hp

/-! ## From the start of a run to its end -/

variable {r : RunRequest α} {p : Subprocess α} {t : Trace α} {deadline now : α}
  {failure : RunFailure}

theorem disk_report (t : Trace α) (r : RunRequest α) (fraction : α) : (t.report r fraction).1.disk = t.disk := by
  unfold Trace.report
  split <;> rfl

theorem discard_ends (hpart : out.unfinished? = some part) (h : Spared part out before t.disk)
    (hfailure : ∀ cause, failure ≠ .disk ⟨cause, [part, out]⟩) :
    Ends p out before (discard t part failure) := by
  unfold discard
  obtain ⟨next, hnext, htouched, hgone⟩ | ⟨cause, hcause, hgone⟩ := removeIfThere_cases t.disk part
  · rw [hnext]
    exact .withdrawn hpart (h.touched hpart htouched) hgone hfailure
  · rw [hcause]
    exact .withdrawn hpart h hgone (by simp)

/-- A process that is told where to write either writes there or leaves the disk alone. -/
theorem start_cases {arguments : List String} (hpart : part.Named)
    (hlast : arguments.getLast? = some part.text) (ht : t.started = none) :
    (∃ t' failure, start r p arguments t = (t', some failure) ∧ t'.disk = t.disk ∧
      (∀ f, failure = .disk f → f.paths = [part]) ∧
      (t'.started = none ∨ ∀ content, t.disk.read? part ≠ some (.file content))) ∨
    ∃ t', start r p arguments t = (t', none) ∧
      ((p.writes = none ∧ t'.disk = t.disk) ∨
        ∃ content, p.writes = some content ∧ t.disk.write part content = .ok t'.disk) := by
  unfold start
  cases p.startError with
  | some reason => exact .inl ⟨t, _, rfl, rfl, by simp, .inl ht⟩
  | none =>
  dsimp only
  rw [hlast, ← Path.ofText_text hpart, Path.ofText_text hpart]
  cases p.writes with
  | none => exact .inr ⟨_, rfl, .inl ⟨rfl, rfl⟩⟩
  | some content =>
  dsimp only
  rw [Path.ofText_text hpart]
  cases hwrite : t.disk.write part content with
  | ok disk => exact .inr ⟨_, rfl, .inr ⟨content, rfl, hwrite⟩⟩
  | error f =>
    obtain ⟨hpaths, hnone⟩ := write_eq_error hwrite
    refine .inl ⟨_, _, rfl, rfl, fun f' hf' => ?_, .inr hnone⟩
    split at hf' <;> cases hf'
    exact hpaths

variable [Scalar α]

/-- Lines that are read leave the disk alone, and what stops it is never the disk. -/
theorem readLines_disk (r : RunRequest α) (deadline : α) (t : Trace α) (lines : List (OutputLine α)) :
    (readLines r deadline t lines).1.disk = t.disk ∧
      ∀ f, (readLines r deadline t lines).2 ≠ some (.disk f) := by
  induction lines generalizing t with
  | nil => exact ⟨rfl, by simp [readLines]⟩
  | cons line lines ih =>
    rw [readLines]
    split
    · exact ⟨rfl, by simp⟩
    split
    · exact ⟨rfl, by simp⟩
    split
    · exact ⟨rfl, by simp⟩
    · exact ih _
    next fraction _ =>
      have hdisk := disk_report (t.pass line.moment) r fraction
      split
      next hreport => exact ⟨by rw [hreport] at hdisk; exact hdisk, by simp⟩
      next hreport =>
        rw [hreport] at hdisk
        exact ⟨(ih _).1.trans hdisk, (ih _).2⟩

theorem conclude_ends (hpart : out.unfinished? = some part)
    (h : Written p.writes part out before t.disk) :
    Ends p out before (conclude r p deadline out part t) := by
  unfold conclude
  split
  · exact discard_ends hpart h.toSpared (by simp)
  split
  · exact discard_ends hpart h.toSpared (by simp)
  split
  · exact discard_ends hpart h.toSpared (by simp)
  split
  next f hmove =>
    obtain ⟨cause, rfl⟩ := move_eq_error hmove
    exact .refused hpart h.toSpared h.written
  next disk hmove =>
    have hdisk := disk_report { t with disk } r 1.0
    have hdelivered := h.moved hpart hmove
    split
    next hreport =>
      rw [hreport] at hdisk
      exact .unheard hpart (hdisk ▸ hdelivered)
    next hreport =>
      rw [hreport] at hdisk
      exact .delivered hpart (hdisk ▸ hdelivered)

theorem attend_ends (hpart : out.unfinished? = some part)
    (h : Written p.writes part out before t.disk) :
    Ends p out before (attend r p deadline out part t) := by
  obtain ⟨hdisk, hfailure⟩ := readLines_disk r deadline t p.lines
  rw [← hdisk] at h
  unfold attend
  split
  next t' failure hread =>
    rw [hread] at h hfailure
    exact discard_ends hpart h.toSpared fun cause hcause => hfailure _ (congrArg some hcause)
  next t' hread =>
    rw [hread] at h
    dsimp only
    split
    · exact discard_ends hpart h.toSpared (by simp)
    · exact conclude_ends hpart h

theorem start_ends {arguments : List String} (hpart : out.unfinished? = some part) (hnamed : part.Named)
    (hlast : arguments.getLast? = some part.text) (ht : t.started = none)
    (hgrows : before.Grows t.disk) :
    Ends p out before (match start r p arguments t with
      | (t, some failure) => (t, .error failure)
      | (t, none) => attend r p deadline out part t) := by
  have hspared : Spared part out before t.disk := .of_others hpart fun place _ => hgrows.keeps place
  obtain ⟨t', failure, hstart, hdisk, hfailure, hnone | hgone⟩ | ⟨t', hstart, hwrote⟩ :=
    start_cases (r := r) (p := p) hnamed hlast ht <;> simp only [hstart]
  · exact .idle hnone (hdisk ▸ hgrows.keeps)
  · refine .withdrawn hpart (hdisk ▸ hspared) (hdisk ▸ hgone) fun cause hcause => ?_
    simpa using hfailure _ hcause
  · -- from here on only the disk that the process left counts
    refine attend_ends hpart ?_
    rcases hwrote with ⟨hnone, hdisk⟩ | ⟨content, hcontent, hwrite⟩
    · exact ⟨hdisk ▸ hspared, by simp [hnone], fun _ => hdisk ▸ hgrows.keeps⟩
    · obtain ⟨htouched, hread⟩ := write_touched hwrite
      refine ⟨hspared.touched hpart htouched, fun content' h => ?_, by simp [hcontent]⟩
      rw [hread, Option.some.inj (hcontent.symm.trans h)]

/-- **A run leaves nothing unfinished unless the disk refuses to move it.** Whatever the disk
is like and whatever the process and the listener do, a run of a plan whose last argument is its
output ends in one of five ways. Only in the last of them, where the disk refuses to move what
is whole into its place, does what the process wrote stay beside the output. -/
theorem run_ends (r : RunRequest α) (p : Subprocess α) (disk : Disk) (now : α)
    (hlast : r.steps.head?.bind List.getLast? = some r.output) :
    Ends p (.ofText r.output) disk (run r p disk now) := by
  unfold run
  split
  next hsteps => simp [hsteps] at hlast
  next hsteps => simp [hsteps] at hlast
  next arguments _ _ hsteps =>
  simp only [hsteps, List.head?_cons, Option.bind_some] at hlast
  dsimp only
  split
  · exact .idle rfl fun _ => .inl rfl
  next ready hready =>
  have hgrows := ensureDirectories_grows hready
  split
  · exact .idle rfl hgrows.keeps
  next part hpart =>
  split
  · exact .idle rfl hgrows.keeps
  · exact .idle rfl hgrows.keeps
  next timeout _ =>
  have hredirect : (redirect arguments r.output part).getLast? = some part.text := by
    simp [redirect, hlast]
  exact start_ends hpart ((Path.ofText_named r.output).unfinished hpart) hredirect rfl hgrows

/-- A plan to export to one file. -/
def exporting : RunRequest Rat where
  steps := [["ffmpeg", "-i", "in.mp4", "out/export.mp4"]]
  output := "out/export.mp4"
  duration := 10
  timeout := .int 600
  stage := "ffmpeg"
  hint := none
  cancelled := false
  listener := none

/-- A process that writes its output, reports half of it, and ends well. -/
def encoder : Subprocess Rat where
  startError := none
  writes := some "x"
  lines := [⟨⟨0, false⟩, .ok "out_time_us=5000000\n"⟩]
  closing := ⟨0, false⟩
  waiting := ⟨0, false⟩
  expires := false
  expiry := fun _ => ""
  exitCode := .int 0
  errors := []

/-- A disk with a directory, and a file in it, where the output goes. -/
def crowded : Disk where
  entries := [(["out"], .directory), (["out", "export.mp4"], .directory),
    (["out", "export.mp4", "keep"], .file "old")]
  here := []

theorem crowded_ends :
    exporting.steps.head?.bind List.getLast? = some exporting.output ∧
      Ends encoder (.ofText exporting.output) crowded (run exporting encoder crowded 0) ∧
      (run exporting encoder crowded 0).1.started =
        some ["ffmpeg", "-i", "in.mp4", "out/export.partial.mp4"] :=
  ⟨rfl, run_ends exporting encoder crowded 0 rfl, by decide +kernel⟩

/-- The move is refused, and what the process wrote stays. -/
theorem crowded_keeps_unfinished :
    (run exporting encoder crowded 0).2 = .error (.disk ⟨.isDirectory,
        [⟨.here, ["out", "export.partial.mp4"]⟩, ⟨.here, ["out", "export.mp4"]⟩]⟩) ∧
      crowded.entry? ["out", "export.partial.mp4"] = none ∧
      Disk.entry? (run exporting encoder crowded 0).1.disk ["out", "export.partial.mp4"] =
        some (.file "x") := by
  decide +kernel

end Engine

end Montage
