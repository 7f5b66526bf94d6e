/-
What the engine prints does not decide how its run comes out.

The lines of the process tell how far it is, and the listener hears fractions from zero to one. How
a run comes out hangs on when lines come, not on what they say: runs of one process that are called
off alike and late alike come out alike (`Engine.outcome_eq_of_course`), unless a line that is
looked at tells a time that no double holds. Such a line fails the run.
-/
import Montage.Engine.Recording
import Montage.Proofs.Largest

namespace Montage

variable {α : Type}

/-! ## What is printed, and when -/

/-- What a process prints, with what happens before each line, at the end of its lines and while
it is waited for. -/
structure Output (α : Type) where
  lines : List (Moment α × String)
  closing : Moment α
  waiting : Moment α

/-- A process with another output, which is read without fail. -/
def Subprocess.printing (p : Subprocess α) (o : Output α) : Subprocess α :=
  { p with
    lines := o.lines.map fun l => ⟨l.1, .ok l.2⟩
    closing := o.closing
    waiting := o.waiting }

/-- The time, and whether a run is called off. -/
structure Clock (α : Type) where
  now : α
  cancelled : Bool

def Trace.clock (t : Trace α) : Clock α := ⟨t.now, t.cancelled⟩

variable [Scalar α]

namespace Clock

def pass (k : Clock α) (m : Moment α) : Clock α := ⟨k.now + m.elapsed, k.cancelled || m.cancels⟩

def isOver (k : Clock α) (deadline : α) : Bool := k.cancelled || decide (deadline < k.now)

/-- The clock after lines, the last of which is the first one that comes when the run is over. -/
def after (deadline : α) : Clock α → List (Moment α × String) → Clock α
  | k, [] => k
  | k, (m, _) :: rest =>
    if (k.pass m).isOver deadline then k.pass m else after deadline (k.pass m) rest

/-- The lines that are looked at: those that come before the run is over. -/
def heeded (deadline : α) : Clock α → List (Moment α × String) → List String
  | _, [] => []
  | k, (m, line) :: rest =>
    if (k.pass m).isOver deadline then [] else line :: heeded deadline (k.pass m) rest

/-- When lines come is all that the clock hangs on. -/
theorem after_congr (deadline : α) (k : Clock α) {lines lines' : List (Moment α × String)}
    (h : lines.map (·.1) = lines'.map (·.1)) : k.after deadline lines = k.after deadline lines' := by
  induction lines generalizing k lines' with
  | nil =>
    rw [List.map_nil, eq_comm, List.map_eq_nil_iff] at h
    rw [h]
  | cons l lines ih =>
    obtain ⟨l', rest, rfl, hm, hrest⟩ := List.map_eq_cons_iff.1 h.symm
    simp only [after, hm, ih _ hrest.symm]

theorem mem_of_mem_heeded {deadline : α} {k : Clock α} {lines : List (Moment α × String)} {line : String}
    (h : line ∈ k.heeded deadline lines) : line ∈ lines.map (·.2) := by
  induction lines generalizing k with
  | nil => exact h
  | cons l lines ih =>
    rw [heeded] at h
    split at h
    · cases h
    · exact List.mem_cons.2 ((List.mem_cons.1 h).imp_right ih)

end Clock

/-- How a run goes on in time: whether it is called off, whether it is late, and how long the
process was waited for in vain. -/
structure Course (α : Type) where
  cancelled : Bool
  late : Bool
  vain : Option α

/-- The course of a run from a clock on. -/
def Output.course (o : Output α) (expires : Bool) (deadline : α) (k : Clock α) : Course α :=
  let closed := (k.after deadline o.lines).pass o.closing
  let ended := closed.pass o.waiting
  { cancelled := ended.cancelled
    late := decide (deadline < ended.now)
    vain := if expires then some (Scalar.larger 1.0 (deadline - closed.now)) else none }

/-- Whether no one who is told of progress fails. -/
def RunRequest.Quiet (r : RunRequest α) : Prop := ∀ tell ∈ r.listener, ∀ fractions, tell fractions = none

namespace Engine

variable {r : RunRequest α} {p : Subprocess α} {t t' : Trace α} {deadline : α}

/-- How a run comes out: the files, and the path or the failure. -/
def outcome (x : Trace α × Except RunFailure String) : Disk × Except RunFailure String := (x.1.disk, x.2)

omit [Scalar α] in
theorem report_quiet (hr : r.Quiet) (t : Trace α) (fraction : α) :
    ∃ reported, t.report r fraction = ({ t with reported }, none) := by
  unfold Trace.report
  cases h : r.listener with
  | none => exact ⟨t.reported, rfl⟩
  | some tell => exact ⟨fraction :: t.reported, by simp [hr tell h]⟩

/-- How reading lines comes out: the disk is left alone, and the clock goes on, unless a line that is
looked at tells a time that is too large. -/
inductive ReadOut (r : RunRequest α) (deadline : α) (t : Trace α) (lines : List (Moment α × String)) :
    Trace α × Option RunFailure → Prop where
  | through {t' : Trace α} : t'.disk = t.disk → t'.clock = t.clock.after deadline lines →
      (∀ line ∈ t.clock.heeded deadline lines, progress? line r.duration ≠ .error .mk) →
      ReadOut r deadline t lines (t', none)
  | stopped {t' : Trace α} {line : String} : t'.disk = t.disk →
      line ∈ t.clock.heeded deadline lines → progress? line r.duration = .error .mk →
      ReadOut r deadline t lines (t', some .timeTooLarge)

theorem ReadOut.cons {m : Moment α} {line : String} {lines : List (Moment α × String)}
    {x : Trace α × Option RunFailure} (h : ReadOut r deadline t' lines x)
    (hdisk : t'.disk = t.disk) (hclock : t'.clock = t.clock.pass m)
    (hover : (t.clock.pass m).isOver deadline = false)
    (hline : progress? line r.duration ≠ .error .mk) :
    ReadOut r deadline t ((m, line) :: lines) x := by
  have hheeded : t.clock.heeded deadline ((m, line) :: lines) =
      line :: t'.clock.heeded deadline lines := by simp [Clock.heeded, hover, hclock]
  cases h with
  | through hdisk' hclock' hlines =>
    refine .through (hdisk'.trans hdisk) ?_ (hheeded ▸ List.forall_mem_cons.2 ⟨hline, hlines⟩)
    rw [hclock', hclock]
    simp [Clock.after, hover]
  | stopped hdisk' hmem hlarge =>
    exact .stopped (hdisk'.trans hdisk) (hheeded ▸ List.mem_cons_of_mem _ hmem) hlarge

theorem readLines_printing (hr : r.Quiet) (deadline : α) (t : Trace α) (lines : List (Moment α × String)) :
    ReadOut r deadline t lines (readLines r deadline t (lines.map fun l => ⟨l.1, .ok l.2⟩)) := by
  induction lines generalizing t with
  | nil => exact .through rfl rfl (by simp [Clock.heeded])
  | cons l lines ih =>
    obtain ⟨m, line⟩ := l
    simp only [List.map_cons, readLines]
    split
    next hover =>
      have hover : (t.clock.pass m).isOver deadline = true := hover
      exact .through rfl (by simp [Clock.after, hover]; rfl) (by simp [Clock.heeded, hover])
    next hover =>
    have hover : (t.clock.pass m).isOver deadline = false := Bool.eq_false_iff.2 hover
    cases hline : progress? line r.duration with
    | error e => exact .stopped rfl (by simp [Clock.heeded, hover]) hline
    | ok fraction? =>
      have hkept : progress? line r.duration ≠ .error .mk := by simp [hline]
      cases fraction? with
      | none => exact (ih (t.pass m)).cons rfl rfl hover hkept
      | some fraction =>
        obtain ⟨reported, hreport⟩ := report_quiet hr (t.pass m) fraction
        simp only [hreport]
        exact (ih { t.pass m with reported }).cons rfl rfl hover hkept

theorem readLines_through (hr : r.Quiet) {lines : List (Moment α × String)}
    (hlines : ∀ line ∈ t.clock.heeded deadline lines, progress? line r.duration ≠ .error .mk) :
    ∃ t', t'.disk = t.disk ∧ t'.clock = t.clock.after deadline lines ∧
      readLines r deadline t (lines.map fun l => ⟨l.1, .ok l.2⟩) = (t', none) := by
  have hread := readLines_printing hr deadline t lines
  generalize readLines r deadline t (lines.map fun l => ⟨l.1, .ok l.2⟩) = x at hread
  cases hread with
  | through hdisk hclock _ => exact ⟨_, hdisk, hclock, rfl⟩
  | stopped _ hmem hlarge => exact absurd hlarge (hlines _ hmem)

theorem readLines_stopped (hr : r.Quiet) {lines : List (Moment α × String)} {line : String}
    (hmem : line ∈ t.clock.heeded deadline lines) (hlarge : progress? line r.duration = .error .mk) :
    ∃ t', readLines r deadline t (lines.map fun l => ⟨l.1, .ok l.2⟩) = (t', some .timeTooLarge) := by
  have hread := readLines_printing hr deadline t lines
  generalize readLines r deadline t (lines.map fun l => ⟨l.1, .ok l.2⟩) = x at hread
  cases hread with
  | through _ _ hlines => exact absurd hlarge (hlines _ hmem)
  | stopped => exact ⟨_, rfl⟩

/-! ## From the lines to the end -/

variable {output part : Path} {a b : Output α}

omit [Scalar α] in
theorem outcome_discard (h : t.disk = t'.disk) (failure : RunFailure) :
    outcome (discard t part failure) = outcome (discard t' part failure) := by
  unfold discard
  rw [h]
  split <;> simp [outcome, h]

theorem outcome_report (hr : r.Quiet) (t : Trace α) (path : String) :
    outcome (match t.report r 1.0 with
      | (t, some c) => (t, .error (.crash c))
      | (t, none) => (t, .ok path)) = (t.disk, .ok path) := by
  obtain ⟨reported, hreport⟩ := report_quiet hr t 1.0
  rw [hreport]
  rfl

/-- In the end only the disk counts, and whether the run is called off or late. -/
theorem outcome_conclude (hr : r.Quiet) (hdisk : t.disk = t'.disk)
    (hcancelled : t.cancelled = t'.cancelled)
    (hlate : decide (deadline < t.now) = decide (deadline < t'.now)) :
    outcome (conclude r p deadline output part t) = outcome (conclude r p deadline output part t') := by
  have hlate : deadline < t.now ↔ deadline < t'.now := by simpa using hlate
  unfold conclude
  simp only [hcancelled, hlate, hdisk]
  split
  · exact outcome_discard hdisk _
  split
  · exact outcome_discard hdisk _
  split
  · exact outcome_discard hdisk _
  split
  · simp [outcome, hdisk]
  next disk _ =>
    exact (outcome_report hr _ _).trans (outcome_report hr { t' with disk } _).symm

/-- A run whose lines are read is over, or comes to its end, at the clock after them. -/
theorem outcome_attend_through (hr : r.Quiet) {o : Output α}
    (hread : readLines r deadline t (p.printing o).lines = (t', none)) :
    outcome (attend r (p.printing o) deadline output part t) =
      if p.expires then
        outcome (discard t' part (.engine (r.error ("ffmpeg timed out: " ++
          p.expiry (Scalar.larger 1.0 (deadline - (t'.pass o.closing).now))))))
      else outcome (conclude r p deadline output part ((t'.pass o.closing).pass o.waiting)) := by
  unfold attend
  rw [hread]
  dsimp only
  rw [show (p.printing o).expires = p.expires from rfl]
  split
  · apply outcome_discard
    rfl
  · apply outcome_conclude hr <;> rfl

theorem outcome_attend (hr : r.Quiet)
    (ha : ∀ line ∈ t.clock.heeded deadline a.lines, progress? line r.duration ≠ .error .mk)
    (hb : ∀ line ∈ t.clock.heeded deadline b.lines, progress? line r.duration ≠ .error .mk)
    (hcourse : a.course p.expires deadline t.clock = b.course p.expires deadline t.clock) :
    outcome (attend r (p.printing a) deadline output part t) =
      outcome (attend r (p.printing b) deadline output part t) := by
  obtain ⟨t₁, hdisk₁, hclock₁, hread₁⟩ := readLines_through hr ha
  obtain ⟨t₂, hdisk₂, hclock₂, hread₂⟩ := readLines_through hr hb
  have hdisk : t₁.disk = t₂.disk := hdisk₁.trans hdisk₂.symm
  simp only [Output.course, ← hclock₁, ← hclock₂, Course.mk.injEq] at hcourse
  obtain ⟨hcancelled, hlate, hvain⟩ := hcourse
  rw [outcome_attend_through hr hread₁, outcome_attend_through hr hread₂]
  split
  next hexpires =>
    simp only [hexpires, if_true, Option.some.injEq] at hvain
    rw [show (t₁.pass a.closing).now = (t₁.clock.pass a.closing).now from rfl, hvain]
    exact outcome_discard hdisk _
  · exact outcome_conclude hr hdisk hcancelled hlate

omit [Scalar α] in
theorem discard_eq_error (t : Trace α) (part : Path) (failure : RunFailure) :
    ∃ e, (discard t part failure).2 = .error e := by
  unfold discard
  split <;> exact ⟨_, rfl⟩

/-- A run fails when a line that is looked at tells a time that is too large. -/
theorem attend_stopped (hr : r.Quiet) {line : String}
    (hmem : line ∈ t.clock.heeded deadline a.lines) (hlarge : progress? line r.duration = .error .mk) :
    ∃ e, (attend r (p.printing a) deadline output part t).2 = .error e := by
  obtain ⟨t', hread⟩ := readLines_stopped hr hmem hlarge
  unfold attend
  rw [show readLines r deadline t (p.printing a).lines = _ from hread]
  exact discard_eq_error ..

/-! ## A whole run -/

/-- The lines of an output that a run looks at. -/
def heeded (r : RunRequest α) (o : Output α) (now seconds : α) : List String :=
  Clock.heeded (now + seconds) ⟨now, r.cancelled⟩ o.lines

/-- The course of a run within some seconds. -/
def courseOf (r : RunRequest α) (p : Subprocess α) (o : Output α) (now seconds : α) : Course α :=
  o.course p.expires (now + seconds) ⟨now, r.cancelled⟩

/-- When lines come is all that the course hangs on. -/
theorem courseOf_congr {now seconds : α} (hlines : a.lines.map (·.1) = b.lines.map (·.1))
    (hclosing : a.closing = b.closing) (hwaiting : a.waiting = b.waiting) :
    courseOf r p a now seconds = courseOf r p b now seconds := by
  unfold courseOf Output.course
  rw [Clock.after_congr _ _ hlines, hclosing, hwaiting]

omit [Scalar α] in
theorem start_kept (r : RunRequest α) (p : Subprocess α) (arguments : List String) (t : Trace α) :
    (start r p arguments t).1.clock = t.clock ∧ (start r p arguments t).1.reported = t.reported := by
  unfold start
  split
  · exact ⟨rfl, rfl⟩
  dsimp only
  split
  · split <;> exact ⟨rfl, rfl⟩
  · exact ⟨rfl, rfl⟩

/-- A run either fails before anything is printed, or the process has started, and what it prints
is read. -/
theorem run_cases (r : RunRequest α) (p : Subprocess α) (disk : Disk) (now : α) :
    (∃ (t : Trace α) (failure : RunFailure), t.reported = [] ∧
      ∀ o, run r (p.printing o) disk now = (t, .error failure)) ∨
    ∃ (seconds : α) (part : Path) (t : Trace α), r.timeout.measure = .ok seconds ∧
      t.clock = ⟨now, r.cancelled⟩ ∧ t.reported = [] ∧
      ∀ o, run r (p.printing o) disk now =
        attend r (p.printing o) (now + seconds) (.ofText r.output) part t := by
  unfold run
  split
  · exact .inl ⟨_, _, rfl, fun _ => rfl⟩
  · exact .inl ⟨_, _, rfl, fun _ => rfl⟩
  next arguments _ _ _ =>
  dsimp only
  split
  · exact .inl ⟨_, _, rfl, fun _ => rfl⟩
  next ready _ =>
  split
  · exact .inl ⟨_, _, rfl, fun _ => rfl⟩
  next part _ =>
  split
  · exact .inl ⟨_, _, rfl, fun _ => rfl⟩
  · exact .inl ⟨_, _, rfl, fun _ => rfl⟩
  next seconds hseconds =>
  have hstart (o : Output α) : start r (p.printing o) = start r p := rfl
  obtain ⟨hclock, hreported⟩ := start_kept r p (redirect arguments r.output part)
    ⟨ready, now, r.cancelled, none, [], false, 0, 0, none, false⟩
  simp only [hstart]
  split
  next t failure hs =>
    rw [hs] at hreported
    exact .inl ⟨t, failure, hreported, fun _ => rfl⟩
  next t hs =>
    rw [hs] at hclock hreported
    exact .inr ⟨seconds, part, t, hseconds, hclock, hreported, fun _ => rfl⟩

variable {disk : Disk} {now : α}

/-- Runs of one course come out alike, whatever is printed that is not too large. -/
theorem outcome_eq_of_course (hr : r.Quiet)
    (hcourse : ∀ seconds, r.timeout.measure = .ok seconds →
      courseOf r p a now seconds = courseOf r p b now seconds)
    (ha : ∀ seconds, r.timeout.measure = .ok seconds →
      ∀ line ∈ heeded r a now seconds, progress? line r.duration ≠ .error .mk)
    (hb : ∀ seconds, r.timeout.measure = .ok seconds →
      ∀ line ∈ heeded r b now seconds, progress? line r.duration ≠ .error .mk) :
    outcome (run r (p.printing a) disk now) = outcome (run r (p.printing b) disk now) := by
  obtain ⟨t, failure, -, hrun⟩ | ⟨seconds, part, t, hseconds, hclock, -, hrun⟩ :=
    run_cases r p disk now
  · rw [hrun, hrun]
  · have hcourse := hcourse seconds hseconds
    have ha := ha seconds hseconds
    have hb := hb seconds hseconds
    rw [courseOf, courseOf, ← hclock] at hcourse
    rw [heeded, ← hclock] at ha hb
    rw [hrun, hrun]
    exact outcome_attend hr ha hb hcourse

/-- A run does not come to its end when a line that is looked at tells a time that is too large. -/
theorem run_stopped (hr : r.Quiet) {seconds : α} (hseconds : r.timeout.measure = .ok seconds)
    {line : String} (hmem : line ∈ heeded r a now seconds)
    (hlarge : progress? line r.duration = .error .mk) :
    ∃ e, (run r (p.printing a) disk now).2 = .error e := by
  obtain ⟨t, failure, -, hrun⟩ | ⟨seconds', part, t, hseconds', hclock, -, hrun⟩ :=
    run_cases r p disk now
  · exact ⟨failure, by rw [hrun]⟩
  · cases hseconds.symm.trans hseconds'
    rw [heeded, ← hclock] at hmem
    rw [hrun]
    exact attend_stopped hr hmem hlarge

/-! ## What is reported -/

section Reported

variable {P : α → Prop} (hclamped : ∀ v, P (Scalar.clamp v 0.0 1.0)) (hwhole : P 1.0)

include hclamped in
theorem progress?_clamped {line : String} {total fraction : α}
    (h : progress? line total = .ok (some fraction)) : P fraction := by
  unfold progress? at h
  dsimp only at h
  split at h
  · cases h
  split at h
  · cases h
  split at h
  · cases h
  · cases h
    exact hclamped _

omit [Scalar α] in
theorem report_kept {fraction : α} (hP : P fraction) (h : ∀ x ∈ t.reported, P x) :
    ∀ x ∈ (t.report r fraction).1.reported, P x := by
  unfold Trace.report
  split
  · exact h
  · exact List.forall_mem_cons.2 ⟨hP, h⟩

omit [Scalar α] in
theorem discard_kept (failure : RunFailure) (h : ∀ x ∈ t.reported, P x) :
    ∀ x ∈ (discard t part failure).1.reported, P x := by
  unfold discard
  split <;> exact h

include hclamped in
theorem readLines_kept (r : RunRequest α) (deadline : α) (lines : List (OutputLine α)) (h : ∀ x ∈ t.reported, P x) :
    ∀ x ∈ (readLines r deadline t lines).1.reported, P x := by
  induction lines generalizing t with
  | nil => exact h
  | cons line lines ih =>
    rw [readLines]
    split
    · exact h
    split
    · exact h
    split
    · exact h
    · exact ih h
    next fraction hline =>
      have hkept := report_kept (t := t.pass line.moment) (r := r) (progress?_clamped hclamped hline) h
      split
      next hreport =>
        rw [hreport] at hkept
        exact hkept
      next hreport =>
        rw [hreport] at hkept
        exact ih hkept

include hwhole in
theorem conclude_kept (h : ∀ x ∈ t.reported, P x) :
    ∀ x ∈ (conclude r p deadline output part t).1.reported, P x := by
  unfold conclude
  split
  · exact discard_kept _ h
  split
  · exact discard_kept _ h
  split
  · exact discard_kept _ h
  split
  · exact h
  next disk _ =>
    have hkept := report_kept (t := { t with disk }) (r := r) hwhole h
    split <;> next hreport =>
      rw [hreport] at hkept
      exact hkept

include hclamped hwhole in
theorem attend_kept (h : ∀ x ∈ t.reported, P x) :
    ∀ x ∈ (attend r p deadline output part t).1.reported, P x := by
  have hkept := readLines_kept hclamped r deadline p.lines h
  unfold attend
  split
  next hread =>
    rw [hread] at hkept
    exact discard_kept _ hkept
  next hread =>
    rw [hread] at hkept
    dsimp only
    split
    · exact discard_kept _ hkept
    · exact conclude_kept hwhole hkept

include hclamped hwhole in
/-- What is reported is a fraction that was moved into its bounds, or the whole in the end. -/
theorem run_kept : ∀ x ∈ (run r (p.printing a) disk now).1.reported, P x := by
  obtain ⟨t, failure, hnil, hrun⟩ | ⟨seconds, part, t, -, -, hnil, hrun⟩ := run_cases r p disk now
  · rw [hrun]
    simp [hnil]
  · rw [hrun]
    exact attend_kept hclamped hwhole (by simp [hnil])

end Reported

end Engine

/-! ## Doubles -/

theorem float_le_of_lt {x y : Float} (h : x < y) : x ≤ y := by
  have hlt : decide (x.toModel < y.toModel) = true := h
  have hlt : (x.toModel.unpack.compare y.toModel.unpack == some .lt) = true := of_decide_eq_true hlt
  have hle : (x.toModel.unpack.compare y.toModel.unpack).any (·.isLE) = true := by
    rw [beq_iff_eq.1 hlt]
    rfl
  exact decide_eq_true (p := x.toModel ≤ y.toModel) hle

/-- Whatever a double stands for, it is moved into the bounds of a fraction. -/
theorem clamp_fraction (x : Float) :
    0.0 ≤ Scalar.clamp x 0.0 1.0 ∧ Scalar.clamp x 0.0 1.0 ≤ 1.0 := by
  have hsmaller : Scalar.smaller 1.0 x ≤ 1.0 := by
    unfold Scalar.smaller
    split
    next hlt => exact float_le_of_lt hlt
    next => decide
  unfold Scalar.clamp Scalar.larger
  split
  next hpos => exact ⟨float_le_of_lt hpos, hsmaller⟩
  next => decide

/-- A line that tells, in millionths of a second, a time that no double is nearest to. -/
def TellsTooMuch (line : String) (total : Float) : Prop :=
  let (key, value) := splitSetting (strip line.toList)
  String.ofList key ∈ timeKeys ∧ ¬ total ≤ 0.0 ∧
    ∃ n : Int, readWhole? value = some n ∧ Binary64.overflow ≤ |(n : Rat) / 1000000|

theorem progress?_eq_error_iff (line : String) (total : Float) :
    progress? line total = .error .mk ↔ TellsTooMuch line total := by
  have hnearest (n : Int) : (Scalar.nearest (mkRat n 1000000) : Option Float) = none ↔
      Binary64.overflow ≤ |(n : Rat) / 1000000| := by
    rw [Rat.mkRat_eq_div]
    exact Binary64.nearest_eq_none_iff _
  unfold progress? TellsTooMuch
  dsimp only
  generalize splitSetting (strip line.toList) = setting
  obtain ⟨key, value⟩ := setting
  dsimp only
  split
  next hother =>
    refine iff_of_false (by simp) fun ⟨hkey, htotal, _⟩ => ?_
    simp [hkey, htotal] at hother
  next hkey =>
  obtain ⟨hkey, htotal⟩ : String.ofList key ∈ timeKeys ∧ ¬ total ≤ 0.0 := by simpa using hkey
  cases readWhole? value with
  | none => exact iff_of_false (by simp) (by simp)
  | some n =>
    dsimp only
    split
    next hnone => exact iff_of_true rfl ⟨hkey, htotal, n, rfl, (hnearest n).1 hnone⟩
    next seconds hsome =>
      refine iff_of_false (by simp) fun ⟨_, _, _, hn, hlarge⟩ => ?_
      cases hn
      simp [(hnearest n).2 hlarge] at hsome

namespace Engine

/-- Whether no line that a run looks at tells a time that is too large. -/
def Legible (r : RunRequest Float) (o : Output Float) (now : Float) : Prop :=
  ∀ seconds, r.timeout.measure = .ok seconds →
    ∀ line ∈ heeded r o now seconds, ¬ TellsTooMuch line r.duration

/-- **What is printed does not decide how a run comes out, unless it tells too much.** Where no one
who is told of progress fails, runs of one process that go on alike in time come out alike
if no line that they look at tells a time that no double is nearest to; a run that looks at such a
line fails. What is reported lies between zero and one in any case. -/
theorem run_outcome (r : RunRequest Float) (p : Subprocess Float) (a b : Output Float) (disk : Disk)
    (now : Float) (hr : r.Quiet) (hcourse : ∀ seconds, r.timeout.measure = .ok seconds →
      courseOf r p a now seconds = courseOf r p b now seconds) :
    (Legible r a now → Legible r b now →
      outcome (run r (p.printing a) disk now) = outcome (run r (p.printing b) disk now)) ∧
    (¬ Legible r a now → ∃ e, (run r (p.printing a) disk now).2 = .error e) ∧
    ∀ x ∈ (run r (p.printing a) disk now).1.reported, 0.0 ≤ x ∧ x ≤ 1.0 := by
  refine ⟨fun ha hb => ?_, fun ha => ?_, run_kept clamp_fraction (by decide)⟩
  · exact outcome_eq_of_course hr hcourse
      (fun seconds hseconds line hline => mt (progress?_eq_error_iff ..).1 (ha seconds hseconds line hline))
      (fun seconds hseconds line hline => mt (progress?_eq_error_iff ..).1 (hb seconds hseconds line hline))
  · simp only [Legible, not_forall, not_not] at ha
    obtain ⟨seconds, hseconds, line, hline, hlarge⟩ := ha
    exact run_stopped hr hseconds hline ((progress?_eq_error_iff ..).2 hlarge)

/-- A plan to export ten seconds to one file. -/
def tenSeconds : RunRequest Float where
  steps := [["ffmpeg", "-i", "in.mp4", "out/export.mp4"]]
  output := "out/export.mp4"
  duration := 10.0
  timeout := .int 600
  stage := "ffmpeg"
  hint := none
  cancelled := false
  listener := some fun _ => none

/-- A process that writes its output and ends well. -/
def writer : Subprocess Float where
  startError := none
  writes := some "x"
  lines := []
  closing := .quiet
  waiting := .quiet
  expires := false
  expiry := fun _ => ""
  exitCode := .int 0
  errors := []

/-- Lines that are printed at once. -/
def atOnce (lines : List String) : Output Float := ⟨lines.map fun line => (.quiet, line), .quiet, .quiet⟩

theorem courseOf_atOnce (r : RunRequest Float) (p : Subprocess Float) (line other : String)
    (now seconds : Float) : courseOf r p (atOnce [line]) now seconds = courseOf r p (atOnce [other]) now seconds :=
  courseOf_congr rfl rfl rfl

theorem tenSeconds_quiet : tenSeconds.Quiet := by
  rintro tell ⟨⟩ _
  rfl

theorem legible_atOnce {r : RunRequest Float} {line : String}
    (h : (progress? line r.duration).isOk) (now : Float) : Legible r (atOnce [line]) now := by
  intro seconds _ other hother
  obtain rfl : other = line := List.mem_singleton.1 (Clock.mem_of_mem_heeded hother)
  rw [← progress?_eq_error_iff]
  intro hlarge
  rw [hlarge] at h
  cases h

/-- What is no number is no report, and the run comes out as it does with one. -/
theorem tenSeconds_outcome :
    let half := atOnce ["out_time_us=5000000"]
    let unknown := atOnce ["out_time_us=N/A"]
    tenSeconds.Quiet ∧
      (∀ seconds, tenSeconds.timeout.measure = .ok seconds →
        courseOf tenSeconds writer half 0.0 seconds = courseOf tenSeconds writer unknown 0.0 seconds) ∧
      Legible tenSeconds half 0.0 ∧ Legible tenSeconds unknown 0.0 ∧
      outcome (run tenSeconds (writer.printing half) ⟨[], []⟩ 0.0) =
        outcome (run tenSeconds (writer.printing unknown) ⟨[], []⟩ 0.0) ∧
      (run tenSeconds (writer.printing half) ⟨[], []⟩ 0.0).1.reported.length = 2 ∧
      ∀ x ∈ (run tenSeconds (writer.printing half) ⟨[], []⟩ 0.0).1.reported, 0.0 ≤ x ∧ x ≤ 1.0 := by
  intro half unknown
  have hcourse : ∀ seconds, tenSeconds.timeout.measure = .ok seconds →
      courseOf tenSeconds writer half 0.0 seconds = courseOf tenSeconds writer unknown 0.0 seconds :=
    fun _ _ => courseOf_atOnce ..
  have hhalf : Legible tenSeconds half 0.0 := legible_atOnce (by decide +kernel) 0.0
  have hunknown : Legible tenSeconds unknown 0.0 := legible_atOnce (by decide +kernel) 0.0
  obtain ⟨houtcome, -, hreported⟩ :=
    run_outcome tenSeconds writer half unknown ⟨[], []⟩ 0.0 tenSeconds_quiet hcourse
  exact ⟨tenSeconds_quiet, hcourse, hhalf, hunknown, houtcome hhalf hunknown, by decide +kernel, hreported⟩

theorem heeded_atOnce (line : String) : heeded tenSeconds (atOnce [line]) 0.0 600.0 = [line] := by
  have hover : ¬ (Clock.pass ⟨0.0, tenSeconds.cancelled⟩ .quiet).isOver (0.0 + 600.0 : Float) = true := by
    decide +kernel
  simp only [heeded, atOnce, List.map_cons, List.map_nil, Clock.heeded, if_neg hover]

/-- A time of four hundred digits fails a run that would come out well. -/
theorem tenSeconds_undone :
    let half := atOnce ["out_time_us=5000000"]
    let overlong := atOnce [String.ofList ("out_time_us=".toList ++ List.replicate 400 '9')]
    tenSeconds.Quiet ∧
      (∀ seconds, tenSeconds.timeout.measure = .ok seconds →
        courseOf tenSeconds writer half 0.0 seconds = courseOf tenSeconds writer overlong 0.0 seconds) ∧
      (run tenSeconds (writer.printing half) ⟨[], []⟩ 0.0).2 = .ok "out/export.mp4" ∧
      ∃ e, (run tenSeconds (writer.printing overlong) ⟨[], []⟩ 0.0).2 = .error e := by
  intro half overlong
  have hseconds : tenSeconds.timeout.measure = .ok (600.0 : Float) := by decide +kernel
  have hlarge : progress? (String.ofList ("out_time_us=".toList ++ List.replicate 400 '9'))
      tenSeconds.duration = .error .mk := by
    unfold progress?
    rw [String.toList_ofList]
    decide +kernel
  refine ⟨tenSeconds_quiet, fun _ _ => courseOf_atOnce .., by decide +kernel, ?_⟩
  exact run_stopped tenSeconds_quiet hseconds ((heeded_atOnce _).symm ▸ List.mem_singleton_self _) hlarge

end Engine

end Montage
