/-
Work on jobs loses none of them.

Names that are given back are given out again, and then two jobs have one id and the store need
not be tidy. What stays true is that the store is housed: every name is that of a job
(`JobStore.Housed`). Whatever is done to a job of a housed store, the store stays so and no name
is lost (`JobStore.Grown`). The studio that makes, runs or cancels a job is at work: it does
nothing else to its store, and nothing to its projects (`Studio.Works`).
-/
import Montage.Proofs.Reading
import Montage.Render.Studio

namespace Montage

variable {α ι : Type}

/-! ## The store -/

namespace JobStore

/-- Every name is that of a job. -/
def Housed (s : JobStore α) : Prop := ∀ f ∈ s.names, f.2 < s.jobs.length

/-- A store of jobs in which no name is lost. -/
structure Grown (s u : JobStore α) : Prop where
  housed : u.Housed
  names : s.names.map (·.1) ⊆ u.names.map (·.1)

variable {s u v : JobStore α} {job : Job α} {name : String} {n : Nat}

theorem Housed.empty : (∅ : JobStore α).Housed := by
  rintro f ⟨⟩

theorem Grown.refl (h : s.Housed) : s.Grown s := ⟨h, List.Subset.refl _⟩

theorem Grown.trans (h : s.Grown u) (h' : u.Grown v) : s.Grown v :=
  ⟨h'.housed, List.Subset.trans h.names h'.names⟩

theorem place?_isSome : (s.place? name).isSome = true ↔ name ∈ s.names.map (·.1) := by
  simp [place?]

theorem Housed.get?_isSome (h : s.Housed) :
    (s.get? name).isSome = true ↔ name ∈ s.names.map (·.1) := by
  rw [← place?_isSome, get?]
  cases hn : s.place? name with
  | none => simp
  | some n =>
    obtain ⟨f, hf, rfl⟩ := Option.map_eq_some_iff.1 hn
    simpa using h f (List.mem_of_find?_eq_some hf)

/-- A job that there is can still be had from a store that has grown. -/
theorem Grown.exists_get? (h : s.Grown u) (hs : s.Housed) (hjob : s.get? name = some job) :
    ∃ later, u.get? name = some later := by
  rw [← Option.isSome_iff_exists, h.housed.get?_isSome]
  exact h.names (hs.get?_isSome.1 (by rw [hjob]; rfl))

theorem mem_names_call {f : String × Nat} (h : f ∈ (s.call name n).names) : f ∈ s.names ∨ f = (name, n) := by
  unfold call at h
  split at h
  · obtain ⟨g, hg, rfl⟩ := List.mem_map.1 h
    split
    · exact .inr rfl
    · exact .inl hg
  · simpa using h

theorem jobs_call (s : JobStore α) (name : String) (n : Nat) : (s.call name n).jobs = s.jobs := by
  unfold call
  split <;> rfl

theorem names_subset_call (s : JobStore α) (name : String) (n : Nat) :
    s.names.map (·.1) ⊆ (s.call name n).names.map (·.1) := by
  unfold call
  split
  · have hkeys : (s.names.map fun f => if f.1 == name then (name, n) else f).map (·.1) =
        s.names.map (·.1) := by
      rw [List.map_map]
      refine List.map_congr_left fun f _ => ?_
      by_cases hf : f.1 = name <;> simp [hf]
    exact hkeys ▸ List.Subset.refl _
  · simp

namespace Housed

/-- A name is given to one of the jobs, of which some are new or others now. -/
theorem grown_call (h : s.Housed) {jobs : List (Job α)} (hjobs : s.jobs.length ≤ jobs.length)
    (hn : n < jobs.length) : s.Grown (({ s with jobs } : JobStore α).call name n) where
  housed := fun f hf => by
    rw [jobs_call]
    rcases mem_names_call hf with hf | rfl
    · exact (h f hf).trans_le hjobs
    · exact hn
  names := names_subset_call { s with jobs } name n

theorem grown_insert (h : s.Housed) (job : Job α) : s.Grown (s.insert job) :=
  h.grown_call (by simp) (by simp)

theorem grown_put (h : s.Housed) (name : String) (job : Job α) : s.Grown (s.put name job) := by
  unfold put
  split
  · next n hn =>
    obtain ⟨f, hf, rfl⟩ := Option.map_eq_some_iff.1 hn
    have hlt := h f (List.mem_of_find?_eq_some hf)
    simp only [change, hn]
    exact h.grown_call (by simp) (by simpa using hlt)
  · exact h.grown_insert job

end Housed

end JobStore

/-! ## The studio -/

namespace Studio

/-- A studio that was at work on its jobs, and on nothing else. -/
structure Works (s u : Studio α ι) : Prop where
  store : s.store.Grown u.store
  projects : u.projects = s.projects
  limit : u.historyLimit = s.historyLimit

variable {s u v : Studio α ι} {job : Job α}

namespace Works

theorem refl (h : s.store.Housed) : s.Works s := ⟨.refl h, rfl, rfl⟩

theorem trans (h : s.Works u) (h' : u.Works v) : s.Works v :=
  ⟨h.store.trans h'.store, h'.projects.trans h.projects, h'.limit.trans h.limit⟩

theorem updateJob (h : s.store.Housed) (name : String) (job : Job α) : s.Works (s.updateJob name job) :=
  ⟨h.grown_put name _, rfl, rfl⟩

theorem changeJob (h : s.store.Housed) (id : String) (f : Job α → Job α) : s.Works (s.changeJob id f) := by
  unfold Studio.changeJob
  split
  · exact updateJob h id _
  · exact .refl h

theorem cancelJob (h : s.store.Housed) (id : String) : s.Works (s.cancelJob id) := by
  unfold Studio.cancelJob
  split
  · exact .refl h
  split
  · exact .refl h
  dsimp only
  split
  · exact ⟨h.grown_put id _, rfl, rfl⟩
  · exact ⟨.refl h, rfl, rfl⟩

theorem cancelJobs (ids : List String) (h : s.store.Housed) : s.Works (ids.foldl Studio.cancelJob s) := by
  induction ids generalizing s with
  | nil => exact .refl h
  | cons id ids ih =>
    have hone := cancelJob h id
    exact hone.trans (ih hone.store.housed)

variable [Scalar α]

theorem startJob (h : s.store.Housed) (job : Job α) : s.Works (s.startJob job) := by
  unfold Studio.startJob
  dsimp only
  split
  · exact updateJob h _ _
  · exact ⟨h.grown_put _ _, rfl, rfl⟩

/-- Whatever a runner does, it works on jobs. -/
theorem follow (id : String) (conduct : Conduct α) (h : s.store.Housed) :
    s.Works (Studio.follow id s conduct) := by
  induction conduct generalizing s with
  | report fraction next ih =>
    have hone := changeJob h id fun j => { j with progress := Job.fraction fraction }
    exact hone.trans (ih hone.store.housed)
  | cancel chosen next ih =>
    have hall := cancelJobs ((s.store.toList.filter chosen).map (·.id)) h
    exact hall.trans (ih hall.store.housed)
  | look cancelled otherwise ihCancelled ihOtherwise =>
    unfold Studio.follow
    split
    · exact ihCancelled h
    · exact ihOtherwise h
  | finish outcome =>
    have hone := changeJob (s := { s with flags := s.flags.filter (·.1 != id) }) h id
      fun j => endJob j outcome
    exact ⟨hone.store, hone.projects, hone.limit⟩

theorem runJob (h : s.store.Housed) (runner : Runner α) (id : String) : s.Works (s.runJob runner id).1 := by
  unfold Studio.runJob
  split
  · exact .refl h
  split
  · exact .refl h
  next job _ _ =>
  have hstart := startJob h job
  dsimp only
  split
  · exact hstart
  · next plan _ =>
    have hrun := follow id (runner (s.startJob job).runs plan) (s := { s.startJob job with
      runs := (s.startJob job).runs + 1 }) hstart.store.housed
    exact hstart.trans ⟨hrun.store, hrun.projects, hrun.limit⟩

variable [BEq ι] [Label ι α]

theorem createJob (h : s.store.Housed) {r : RenderRequest} (hu : s.createJob r = .ok (u, job)) :
    s.Works u := by
  obtain ⟨plan, -, he⟩ := map_eq_ok.1 hu
  cases he
  exact ⟨h.grown_insert _, rfl, rfl⟩

theorem render (h : s.store.Housed) {runner : Runner α} {r : RenderRequest}
    {result : Report (RenderResult α)} (hu : s.render runner r = .ok (u, result)) : s.Works u := by
  unfold Studio.render at hu
  split at hu
  · obtain ⟨_, -, he⟩ := map_eq_ok.1 hu
    cases he
    exact .refl h
  · obtain ⟨⟨v, job⟩, hmade, he⟩ := map_eq_ok.1 hu
    cases he
    have hcreated := createJob h hmade
    exact hcreated.trans (runJob hcreated.store.housed runner job.id)

end Works

end Studio

end Montage
