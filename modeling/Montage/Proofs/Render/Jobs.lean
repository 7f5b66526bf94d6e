/-
The jobs of a studio that makes, runs and cancels them.

In a store that is `Tidy` each job is known under its own id alone, so that to put or to
insert a job changes what that id leads to and nothing else (`JobStore.Tidy.get?_put`,
`JobStore.Tidy.get?_insert`). A studio is kept (`Studio.Kept`) when its store is tidy, its
jobs make sense (`Job.Coherent`), and no job that may still be run is told to stop; making,
starting, changing, cancelling and ending a job all keep it.
-/
import Montage.Proofs.Reading
import Montage.Proofs.Keyed
import Montage.Render.Studio

namespace Montage

variable {α ι : Type}

theorem Ids.next_inj {ids other : Ids} (h : ids.next = other.next) : ids = other := by
  have hrepr : (ids.issued + 1).repr = (other.issued + 1).repr := by
    simpa [next, String.append_right_inj] using h
  rw [Nat.repr_eq_ofList_toDigits, Nat.repr_eq_ofList_toDigits, String.ofList_inj] at hrepr
  have hread := congrArg (Nat.ofDigitChars 10 · 0) hrepr
  simp only [Nat.ofDigitChars_toDigits (by decide : 1 < 10) (by decide : 10 ≤ 10),
    Nat.add_right_cancel_iff] at hread
  cases ids
  cases other
  rw [Ids.mk.injEq]
  exact hread

/-! ## The store -/

namespace JobStore

/-- Each job is known under its own id, and no two have the same. -/
structure Tidy (s : JobStore α) : Prop where
  names : s.names = (s.jobs.map (·.id)).zipIdx
  ids : (s.jobs.map (·.id)).Nodup

variable {s : JobStore α} {job old : Job α} {id other : String} {n : Nat}

theorem get?_empty (id : String) : (∅ : JobStore α).get? id = none := rfl

namespace Tidy

theorem empty : (∅ : JobStore α).Tidy := ⟨rfl, List.nodup_nil⟩

theorem names_nodup (h : s.Tidy) : (s.names.map (·.1)).Nodup := by
  rw [h.names, List.zipIdx_map_fst]
  exact h.ids

theorem place?_iff_mem (h : s.Tidy) : s.place? id = some n ↔ (id, n) ∈ s.names := by
  rw [place?, Option.map_eq_some_iff]
  constructor
  · rintro ⟨p, hp, rfl⟩
    have hid : p.1 = id := by simpa using List.find?_some hp
    exact hid ▸ List.mem_of_find?_eq_some hp
  · exact fun hp => ⟨_, find?_key_eq_some h.names_nodup hp rfl, rfl⟩

theorem place?_eq_some (h : s.Tidy) :
    s.place? id = some n ↔ (s.jobs[n]?).map (·.id) = some id := by
  rw [h.place?_iff_mem, h.names, List.mem_zipIdx_iff_getElem?, List.getElem?_map]

theorem get?_eq_some (h : s.Tidy) : s.get? id = some job ↔ job ∈ s.jobs ∧ job.id = id := by
  simp only [get?, Option.bind_eq_some_iff, h.place?_eq_some]
  constructor
  · rintro ⟨n, hn, hjob⟩
    exact ⟨List.mem_of_getElem? hjob, by simpa [hjob] using hn⟩
  · rintro ⟨hmem, rfl⟩
    obtain ⟨n, hn⟩ := List.mem_iff_getElem?.1 hmem
    exact ⟨n, by simp [hn], hn⟩

theorem id_of_get? (h : s.Tidy) (hjob : s.get? id = some job) : job.id = id :=
  (h.get?_eq_some.1 hjob).2

/-! ### A job put in the place of the one of its id -/

theorem put_eq (h : s.Tidy) (hn : s.place? id = some n) (hid : job.id = id) :
    s.put id job = { s with jobs := s.jobs.set n job } := by
  have hnamed := h.place?_iff_mem.1 hn
  have hany : s.names.any (·.1 == id) = true := List.any_eq_true.2 ⟨_, hnamed, by simp⟩
  have hsame : s.names.map (fun f => if f.1 == id then (id, n) else f) = s.names := by
    refine (List.map_congr_left fun f hf => ?_).trans (List.map_id _)
    split
    · next hfid => exact (List.inj_on_of_nodup_map h.names_nodup hf hnamed (beq_iff_eq.1 hfid)).symm
    · rfl
  simp only [put, hn, change, call, hid, hany, if_true, hsame]

theorem put (h : s.Tidy) (hold : s.get? id = some old) (hid : job.id = id) : (s.put id job).Tidy := by
  obtain ⟨n, hn, hget⟩ := Option.bind_eq_some_iff.1 hold
  have hids : (s.jobs.set n job).map (·.id) = s.jobs.map (·.id) := by
    refine List.ext_getElem? fun m => ?_
    rw [List.getElem?_map, List.getElem?_map, List.getElem?_set]
    split
    · next hnm =>
      rw [← hnm, if_pos (List.getElem?_eq_some_iff.1 hget).1, h.place?_eq_some.1 hn, Option.map_some,
        hid]
    · rfl
  rw [h.put_eq hn hid]
  exact ⟨by rw [hids]; exact h.names, hids ▸ h.ids⟩

theorem get?_put (h : s.Tidy) (hold : s.get? id = some old) (hid : job.id = id) (other : String) :
    (s.put id job).get? other = if other = id then some job else s.get? other := by
  obtain ⟨n, hn, hget⟩ := Option.bind_eq_some_iff.1 hold
  rw [h.put_eq hn hid]
  show (s.place? other).bind (fun m => (s.jobs.set n job)[m]?) = _
  split
  · next he =>
    rw [he, hn, Option.bind_some, List.getElem?_set_self (List.getElem?_eq_some_iff.1 hget).1]
  · next he =>
    cases hm : s.place? other with
    | none => simp [get?, hm]
    | some m =>
      have hne : n ≠ m := by
        rintro rfl
        rw [h.place?_eq_some] at hn hm
        exact he (Option.some.inj (hm.symm.trans hn))
      rw [Option.bind_some, List.getElem?_set_ne hne, get?, hm, Option.bind_some]

/-! ### A job that is new -/

theorem insert_eq (h : s.Tidy) (hid : s.get? job.id = none) :
    s.insert job = ⟨s.jobs ++ [job], s.names ++ [(job.id, s.jobs.length)]⟩ ∧
      job.id ∉ s.jobs.map (·.id) := by
  have hnew : job.id ∉ s.jobs.map (·.id) := fun hmem => by
    obtain ⟨old, hold, he⟩ := List.mem_map.1 hmem
    rw [h.get?_eq_some.2 ⟨hold, he⟩] at hid
    cases hid
  have hnone : s.names.any (·.1 == job.id) = false := by
    rw [List.any_eq_false]
    rintro ⟨id, n⟩ hmem he
    rw [h.names] at hmem
    exact hnew (beq_iff_eq.1 he ▸ (List.mem_zipIdx' hmem).2 ▸ List.getElem_mem _)
  refine ⟨?_, hnew⟩
  simp [insert, call, hnone]

theorem insert (h : s.Tidy) (hid : s.get? job.id = none) : (s.insert job).Tidy := by
  obtain ⟨he, hnew⟩ := h.insert_eq hid
  rw [he]
  constructor
  · simp [h.names, List.zipIdx_append]
  · rw [List.map_append, List.map_singleton, ← List.concat_eq_append]
    exact h.ids.concat hnew

theorem get?_insert (h : s.Tidy) (hid : s.get? job.id = none) (other : String) :
    (s.insert job).get? other = if other = job.id then some job else s.get? other := by
  obtain ⟨he, -⟩ := h.insert_eq hid
  have hjobs : (s.insert job).jobs = s.jobs ++ [job] := by rw [he]
  refine Option.ext fun found => ?_
  rw [(h.insert hid).get?_eq_some, hjobs, List.mem_append, List.mem_singleton]
  split
  · next heq =>
    rw [Option.some.injEq]
    constructor
    · rintro ⟨hmem | rfl, hfound⟩
      · rw [h.get?_eq_some.2 ⟨hmem, hfound.trans heq⟩] at hid
        cases hid
      · rfl
    · rintro rfl
      exact ⟨.inr rfl, heq.symm⟩
  · next hne =>
    rw [h.get?_eq_some]
    constructor
    · rintro ⟨hmem | rfl, hfound⟩
      · exact ⟨hmem, hfound⟩
      · exact absurd hfound.symm hne
    · exact fun hfound => ⟨.inl hfound.1, hfound.2⟩

end Tidy

end JobStore

/-! ## One job -/

/-- The statuses that a job may go on to. -/
def JobStatus.nexts : JobStatus → List JobStatus
  | .queued => [.running, .cancelled]
  | .running => [.succeeded, .failed, .cancelled]
  | .failed => [.running]
  | .succeeded | .cancelled => []

/-- A job that is new waits, and one that there is stays and keeps its status or goes on
from it. -/
def Job.Moved : Option (Job α) → Option (Job α) → Prop
  | some job, some later => later.status = job.status ∨ later.status ∈ job.status.nexts
  | none, some later => later.status = .queued
  | none, none => True
  | some _, none => False

theorem Job.Moved.refl (job : Option (Job α)) : Job.Moved job job := by
  cases job
  · trivial
  · exact .inl rfl

variable [Scalar α]

/-- A job whose end, error and progress are those of its status. -/
structure Job.Coherent (job : Job α) : Prop where
  finished : job.finished.isSome = job.isTerminal
  error : job.error.isSome = true ↔ job.status = .failed
  progress : job.progress = 0.0 ∨ job.progress = 1.0 ∨ 0.0 < job.progress ∧ job.progress < 1.0
  done : job.status = .succeeded → job.progress = 1.0

namespace Job

variable {job : Job α} {now : Instant}

theorem fraction_cases (x : α) :
    fraction x = 0.0 ∨ fraction x = 1.0 ∨ 0.0 < fraction x ∧ fraction x < 1.0 := by
  unfold fraction Scalar.clamp Scalar.larger Scalar.smaller
  by_cases hhi : x < 1.0
  · by_cases hlo : 0.0 < x
    · simp [hhi, hlo]
    · simp [hhi, hlo]
  · by_cases hone : (0.0 : α) < 1.0 <;> simp [hhi, hone]

namespace Coherent

/-- A job that is stored gets its end if it comes to one. -/
theorem stamp (hfinished : job.finished = none)
    (herror : job.error.isSome = true ↔ job.status = .failed)
    (hprogress : job.progress = 0.0 ∨ job.progress = 1.0 ∨ 0.0 < job.progress ∧ job.progress < 1.0)
    (hdone : job.status = .succeeded → job.progress = 1.0) : (job.stamp now).Coherent where
  finished := by
    show (if job.isTerminal && job.finished.isNone then some now else job.finished).isSome =
      job.isTerminal
    cases hterminal : job.isTerminal <;> simp [hfinished]
  error := herror
  progress := hprogress
  done := hdone

theorem finished_none (h : job.Coherent) (hstatus : job.status.isTerminal = false) :
    job.finished = none := by
  have hsome := h.finished
  rw [Job.isTerminal, hstatus] at hsome
  simpa using hsome

theorem error_none (h : job.Coherent) (hstatus : job.status.isTerminal = false) : job.error = none := by
  have hne : job.status ≠ .failed := by
    rintro he
    rw [he] at hstatus
    cases hstatus
  simpa using mt h.error.1 hne

theorem started (job : Job α) (now : Instant) : ({ job with
    status := .running, progress := 0.0, error := none, finished := none }.stamp now).Coherent :=
  .stamp rfl (by simp) (.inl rfl) nofun

theorem reported (h : job.Coherent) (hstatus : job.status = .running) (x : α) (now : Instant) :
    ({ job with progress := fraction x }.stamp now).Coherent :=
  .stamp (h.finished_none (hstatus ▸ rfl)) h.error (fraction_cases x)
    fun hdone => by simp [hstatus] at hdone

theorem dismissed (h : job.Coherent) (hstatus : job.status = .queued) (now : Instant) :
    ({ job with status := .cancelled }.stamp now).Coherent :=
  .stamp (h.finished_none (hstatus ▸ rfl)) (by simp [h.error_none (hstatus ▸ rfl)]) h.progress nofun

theorem ended (h : job.Coherent) (hstatus : job.status = .running) (outcome : Outcome)
    (now : Instant) : ((Studio.endJob job outcome).stamp now).Coherent := by
  have hfinished := h.finished_none (hstatus ▸ rfl)
  have herror := h.error_none (hstatus ▸ rfl)
  cases outcome with
  | produced path => exact .stamp hfinished (by simp [Studio.endJob, herror]) (.inr (.inl rfl)) fun _ => rfl
  | cancelled => exact .stamp hfinished (by simp [Studio.endJob, herror]) h.progress nofun
  | failed e => exact .stamp hfinished (by simp [Studio.endJob]) h.progress nofun
  | crashed c => exact .stamp hfinished (by simp [Studio.endJob]) h.progress nofun

end Coherent

end Job

/-! ## The studio -/

namespace Studio

/-- A studio of coherent jobs under names that were issued, of which none that may still be
run is told to stop. -/
structure Kept (s : Studio α ι) : Prop where
  tidy : s.store.Tidy
  coherent : ∀ id job, s.store.get? id = some job → job.Coherent
  issued : ∀ id job, s.store.get? id = some job → ∃ n < s.ids.issued, id = (⟨n⟩ : Ids).next
  flagged : ∀ flag ∈ s.flags, (s.store.get? flag.1).isSome = true
  calm : ∀ id job, s.store.get? id = some job → runs? job.status = true → s.isCancelled id = false

/-- A step that keeps a studio, moves each job at most on by one status, and runs none. -/
structure Step (s u : Studio α ι) : Prop where
  kept : u.Kept
  moved : ∀ id, Job.Moved (s.store.get? id) (u.store.get? id)
  runs : u.runs = s.runs

variable {s u : Studio α ι} {job old : Job α} {id : String} {flags : List (String × Bool)}

/-- Whether the job of an id is running. -/
def Running (s : Studio α ι) (id : String) : Prop :=
  ∃ job, s.store.get? id = some job ∧ job.status = .running

theorem Step.refl (h : s.Kept) : s.Step s := ⟨h, fun _ => .refl _, rfl⟩

omit [Scalar α] in
/-- To tell one job to stop is to tell no other one. -/
theorem isCancelled_told (s : Studio α ι) {other : String} (hne : other ≠ id) :
    ({ s with flags := s.flags.map fun f => if f.1 == id then (id, true) else f } :
      Studio α ι).isCancelled other = s.isCancelled other := by
  simp only [Studio.isCancelled, List.any_map]
  refine congrArg (fun p => s.flags.any p) (funext fun f => ?_)
  rw [Function.comp_apply]
  split
  · next he =>
    have hfne : f.1 ≠ other := fun hf => hne (hf.symm.trans (beq_iff_eq.1 he))
    rw [beq_eq_false_iff_ne.2 (Ne.symm hne), beq_eq_false_iff_ne.2 hfne]
    rfl
  · rfl

omit [Scalar α] in
/-- The job of a run that has ended is not told to stop any more. -/
theorem isCancelled_untold (s : Studio α ι) (id other : String) :
    ({ s with flags := s.flags.filter (·.1 != id) } : Studio α ι).isCancelled other =
      (other != id && s.isCancelled other) := by
  simp only [Studio.isCancelled, List.any_filter]
  by_cases he : other = id
  · rw [he]
    simp
  · have hne : (other != id) = true := by simpa using he
    rw [hne, Bool.true_and]
    refine congrArg (fun p => s.flags.any p) (funext fun f => ?_)
    by_cases hf : f.1 = other <;> simp [hf, he]

namespace Kept

/-- Some jobs are told to stop, or are not any more. -/
theorem setFlags (h : s.Kept) (hflagged : ∀ flag ∈ flags, (s.store.get? flag.1).isSome = true)
    (hcalm : ∀ id job, s.store.get? id = some job → runs? job.status = true →
      ({ s with flags } : Studio α ι).isCancelled id = false) :
    s.Step { s with flags } where
  kept := { h with flagged := hflagged, calm := hcalm }
  moved _ := .refl _
  runs := rfl

/-- A studio in which one job is another, or has come in, and no other one is. -/
theorem exchange (h : s.Kept) (htidy : u.store.Tidy)
    (hget : ∀ other, u.store.get? other = if other = id then some job else s.store.get? other)
    (hjob : job.Coherent) (hmoved : Job.Moved (s.store.get? id) (some job))
    (hids : s.ids.issued ≤ u.ids.issued) (hissued : ∃ n < u.ids.issued, id = (⟨n⟩ : Ids).next)
    (hflagged : ∀ flag ∈ u.flags, flag.1 = id ∨ (s.store.get? flag.1).isSome = true)
    (hothers : ∀ other, other ≠ id → u.isCancelled other = s.isCancelled other)
    (hcalm : runs? job.status = true → u.isCancelled id = false) (hruns : u.runs = s.runs) :
    s.Step u := by
  refine ⟨⟨htidy, fun other found hfound => ?_, fun other found hfound => ?_, fun flag hflag => ?_,
    fun other found hfound hruns => ?_⟩, fun other => ?_, hruns⟩
  · rw [hget] at hfound
    split at hfound
    · cases hfound
      exact hjob
    · exact h.coherent other found hfound
  · rw [hget] at hfound
    split at hfound
    · next he => exact he ▸ hissued
    · obtain ⟨n, hn, he⟩ := h.issued other found hfound
      exact ⟨n, hn.trans_le hids, he⟩
  · rw [hget]
    split
    · rfl
    · next hne => exact (hflagged flag hflag).resolve_left hne
  · rw [hget] at hfound
    split at hfound
    · next he =>
      cases hfound
      rw [he]
      exact hcalm hruns
    · next hne => exact (hothers other hne).trans (h.calm other found hfound hruns)
  · rw [hget]
    split
    · next he => exact he ▸ hmoved
    · exact .refl _

/-- A job is changed and stored, and perhaps told to stop, or not any more. -/
theorem update (h : s.Kept) (hold : s.store.get? id = some old) (hid : job.id = id)
    (hjob : (job.stamp (.tick (s.clock + 1))).Coherent)
    (hmoved : job.status = old.status ∨ job.status ∈ old.status.nexts)
    (hflagged : ∀ flag ∈ flags, (s.store.get? flag.1).isSome = true)
    (hothers : ∀ other, other ≠ id →
      ({ s with flags } : Studio α ι).isCancelled other = s.isCancelled other)
    (hcalm : runs? job.status = true → ({ s with flags } : Studio α ι).isCancelled id = false) :
    s.Step { s.updateJob id job with flags } := by
  have hstamped : (job.stamp (.tick (s.clock + 1))).id = id := hid
  refine h.exchange (h.tidy.put hold hstamped) (h.tidy.get?_put hold hstamped) hjob ?_ le_rfl
    (h.issued id old hold) (fun flag hflag => .inr (hflagged flag hflag)) hothers hcalm rfl
  rw [hold]
  exact hmoved

/-! ### What can be asked of a studio -/

theorem vacant (hstore : s.store = ∅) (hflags : s.flags = []) : s.Kept where
  tidy := hstore ▸ .empty
  coherent := by simp [hstore, JobStore.get?_empty]
  issued := by simp [hstore, JobStore.get?_empty]
  flagged := by simp [hflags]
  calm := by simp [hstore, JobStore.get?_empty]

/-- No job has the next name. -/
theorem get?_next (h : s.Kept) : s.store.get? s.ids.next = none := by
  refine Option.eq_none_iff_forall_ne_some.2 fun old hold => ?_
  obtain ⟨n, hn, he⟩ := h.issued _ old hold
  exact absurd (congrArg Ids.issued (Ids.next_inj he)) hn.ne'

/-- A job that waits comes in under the next name. -/
theorem enter (h : s.Kept) (hid : job.id = s.ids.next) (hstatus : job.status = .queued)
    (hjob : job.Coherent) (clock : Nat) :
    s.Step { s with
      ids := s.ids.rest, clock, flags := s.flags ++ [(job.id, false)], store := s.store.insert job } := by
  have hnew : s.store.get? job.id = none := hid ▸ h.get?_next
  have htold (other : String) : (s.flags ++ [(job.id, false)]).any (fun f => f.1 == other && f.2) =
      s.isCancelled other := by
    simp [Studio.isCancelled]
  have hcalm : s.isCancelled job.id = false := by
    refine List.any_eq_false.2 fun flag hflag htold => ?_
    have hknown := h.flagged flag hflag
    simp only [Bool.and_eq_true, beq_iff_eq] at htold
    rw [htold.1, hnew] at hknown
    cases hknown
  refine h.exchange (h.tidy.insert hnew) (h.tidy.get?_insert hnew) hjob ?_ (Nat.le_succ _)
    ⟨s.ids.issued, Nat.lt_succ_self _, hid⟩ (fun flag hflag => ?_) (fun other _ => htold other)
    (fun _ => (htold job.id).trans hcalm) rfl
  · rw [hnew]
    exact hstatus
  · rcases List.mem_append.1 hflag with hflag | hflag
    · exact .inr (h.flagged flag hflag)
    · exact .inl (congrArg Prod.fst (List.mem_singleton.1 hflag))

theorem createJob [BEq ι] [Label ι α] (h : s.Kept) {r : RenderRequest}
    (hu : s.createJob r = .ok (u, job)) : s.Step u := by
  obtain ⟨plan, -, he⟩ := map_eq_ok.1 hu
  cases he
  exact h.enter rfl rfl ⟨rfl, by simp, .inl rfl, fun hdone => by cases hdone⟩ _

theorem startJob (h : s.Kept) (hjob : s.store.get? id = some job) (hruns : runs? job.status = true) :
    s.Step (s.startJob job) ∧ (s.startJob job).isCancelled id = false ∧
      (s.startJob job).Running id := by
  obtain rfl := h.tidy.id_of_get? hjob
  obtain ⟨flags, hflags, he⟩ : ∃ flags, (flags = s.flags ∨ flags = s.flags ++ [(job.id, false)]) ∧
      s.startJob job = { s.updateJob job.id { job with
        status := .running, progress := 0.0, error := none, finished := none } with flags } := by
    unfold Studio.startJob
    dsimp only
    split
    · exact ⟨_, .inl rfl, rfl⟩
    · exact ⟨_, .inr rfl, rfl⟩
  have htold (other : String) :
      ({ s with flags } : Studio α ι).isCancelled other = s.isCancelled other := by
    rcases hflags with rfl | rfl <;> simp [Studio.isCancelled]
  have hflagged : ∀ flag ∈ flags, (s.store.get? flag.1).isSome = true := by
    intro flag hflag
    rcases hflags with rfl | rfl
    · exact h.flagged flag hflag
    · rcases List.mem_append.1 hflag with hflag | hflag
      · exact h.flagged flag hflag
      · rw [List.mem_singleton.1 hflag, hjob]
        rfl
  have hmoved : JobStatus.running = job.status ∨ JobStatus.running ∈ job.status.nexts := by
    cases hstatus : job.status <;> simp_all [runs?, JobStatus.nexts]
  rw [he]
  refine ⟨h.update hjob rfl (.started job _) hmoved hflagged (fun other _ => htold other) nofun,
    (htold job.id).trans (h.calm _ job hjob hruns), ?_⟩
  refine ⟨_, (h.tidy.get?_put hjob ?_ job.id).trans (if_pos rfl), ?_⟩ <;> rfl

theorem cancelJob (h : s.Kept) (id : String) : s.Step (s.cancelJob id) := by
  unfold Studio.cancelJob
  split
  · exact .refl h
  next job hjob =>
  split
  · exact .refl h
  next hterminal =>
  dsimp only
  have hflagged : ∀ flag ∈ s.flags.map (fun f => if f.1 == id then (id, true) else f),
      (s.store.get? flag.1).isSome = true := by
    intro flag hflag
    obtain ⟨f, hf, rfl⟩ := List.mem_map.1 hflag
    split
    · rw [hjob]
      rfl
    · exact h.flagged f hf
  have hid := h.tidy.id_of_get? hjob
  split
  · next hqueued =>
    exact h.update hjob hid ((h.coherent id job hjob).dismissed hqueued _)
      (.inr (by simp [hqueued, JobStatus.nexts])) hflagged (fun _ hne => isCancelled_told s hne) nofun
  · next hqueued =>
    refine h.setFlags hflagged fun other found hfound hruns => ?_
    by_cases he : other = id
    · -- The job is neither waiting nor at its end, so that it is not run again.
      rw [he, hjob, Option.some.injEq] at hfound
      subst hfound
      cases hstatus : job.status <;> simp_all [runs?, Job.isTerminal, JobStatus.isTerminal]
    · exact (isCancelled_told s he).trans (h.calm other found hfound hruns)

/-- To tell a job to stop leaves running what runs. -/
theorem running_cancelJob (h : s.Kept) (hrunning : s.Running id) (other : String) :
    (s.cancelJob other).Running id := by
  obtain ⟨job, hjob, hstatus⟩ := hrunning
  unfold Studio.cancelJob
  split
  · exact ⟨job, hjob, hstatus⟩
  next found hfound =>
  split
  · exact ⟨job, hjob, hstatus⟩
  dsimp only
  split
  · next hqueued =>
    have hne : id ≠ other := by
      rintro rfl
      rw [hjob, Option.some.injEq] at hfound
      rw [← hfound, hstatus] at hqueued
      cases hqueued
    have hid := h.tidy.id_of_get? hfound
    refine ⟨job, (h.tidy.get?_put hfound ?_ id).trans ((if_neg hne).trans hjob), hstatus⟩
    exact hid
  · exact ⟨job, hjob, hstatus⟩

/-- A job that runs reports how far it is. -/
theorem report (h : s.Kept) (hrunning : s.Running id) (x : α) :
    s.Step (s.changeJob id fun j => { j with progress := Job.fraction x }) ∧
      (s.changeJob id fun j => { j with progress := Job.fraction x }).Running id := by
  obtain ⟨job, hjob, hstatus⟩ := hrunning
  have hid := h.tidy.id_of_get? hjob
  rw [Studio.changeJob, hjob]
  refine ⟨h.update hjob hid ((h.coherent id job hjob).reported hstatus x _) (.inl rfl) h.flagged
    (fun _ _ => rfl) (by simp [hstatus, runs?]), ?_⟩
  refine ⟨_, (h.tidy.get?_put hjob ?_ id).trans (if_pos rfl), hstatus⟩
  exact hid

/-- A job that runs comes to its end. -/
theorem finish (h : s.Kept) (hrunning : s.Running id) (outcome : Outcome) :
    s.Step (({ s with flags := s.flags.filter (·.1 != id) } : Studio α ι).changeJob id
      fun j => endJob j outcome) := by
  obtain ⟨job, hjob, hstatus⟩ := hrunning
  have he : ({ s with flags := s.flags.filter (·.1 != id) } : Studio α ι).changeJob id
      (fun j => endJob j outcome) =
      { s.updateJob id (endJob job outcome) with flags := s.flags.filter (·.1 != id) } := by
    rw [Studio.changeJob, hjob]
    rfl
  rw [he]
  refine h.update hjob ?_ ((h.coherent id job hjob).ended hstatus outcome _) ?_
    (fun flag hflag => h.flagged flag (List.mem_of_mem_filter hflag)) (fun other hne => ?_) fun _ => ?_
  · have := h.tidy.id_of_get? hjob
    cases outcome <;> exact this
  · rw [hstatus]
    cases outcome <;> simp [endJob, JobStatus.nexts]
  · simp [isCancelled_untold, hne]
  · simp [isCancelled_untold]

end Kept

end Studio

end Montage
