/-
The history of a project, told apart from the project.

A `Log` has all the effective steps of a project, each with the timeline before it and the
one after it, and says how many of them can be undone. The past of the project is the
timelines before these, and its future the timelines after the steps that are undone
(`Project.Follows`). Every request keeps it so (`Follows.answer`), and so do requests in
any order, if the limit is above zero (`history_kept`).
-/
import Mathlib
import Montage.Project.History

namespace Montage

/-- The steps of a history, each from one state to the next. `done` has the latest one first,
`undone` the one that is redone first; so many of those done can be undone as `depth` says. -/
structure Log (σ : Type) where
  present : σ
  done : List (σ × σ)
  undone : List (σ × σ)
  depth : Nat

/-- What is asked of a project. A command gives any timeline, or is refused. -/
inductive Project.Request (ε κ α ι : Type) where
  | apply (command : Timeline α ι → Except ε (Timeline α ι × κ))
  | undo
  | redo

namespace Log

variable {σ : Type}

/-- No step yet. -/
def start (present : σ) : Log σ := ⟨present, [], [], 0⟩

/-- A step to a new state. -/
def enter (limit : Nat) (log : Log σ) (after : σ) : Log σ :=
  ⟨after, (log.present, after) :: log.done, [], min limit (log.depth + 1)⟩

/-- The latest step undone, if it can be. -/
def back (log : Log σ) : Log σ :=
  match log.depth, log.done with
  | depth + 1, step :: done => ⟨step.1, done, step :: log.undone, depth⟩
  | _, _ => log

/-- The step that was undone last done again. -/
def forth (log : Log σ) : Log σ :=
  match log.undone with
  | step :: undone => ⟨step.2, step :: log.done, undone, log.depth + 1⟩
  | [] => log

end Log

variable {ε κ α ι : Type}

/-! ## A project and its log -/

namespace Project

variable {p : Project α ι} {log : Log (Timeline α ι)}

/-- What a project keeps of the steps of a log, which lead from one to the next. -/
structure Follows (p : Project α ι) (log : Log (Timeline α ι)) : Prop where
  current : p.current = log.present
  past : p.past = (log.done.take log.depth).map (·.1)
  future : p.future = log.undone.map (·.2)
  depth : log.depth ≤ log.done.length
  done : log.done.IsChain fun s t => s.1 = t.2
  latest : ∀ s ∈ log.done.head?, s.2 = log.present
  undone : log.undone.IsChain fun s t => s.2 = t.1
  next : ∀ s ∈ log.undone.head?, s.1 = log.present

namespace Follows

theorem new (id : String) (t : Timeline α ι) : (new id t).Follows (.start t) where
  current := rfl
  past := rfl
  future := rfl
  depth := le_rfl
  done := .nil
  latest := by simp [Log.start]
  undone := .nil
  next := by simp [Log.start]

/-- A past that is not empty is that of a step. -/
theorem exists_step (h : p.Follows log) (hp : p.past ≠ []) :
    ∃ step done depth, log.done = step :: done ∧ log.depth = depth + 1 ∧ step.2 = p.current ∧
      p.past = step.1 :: (done.take depth).map (·.1) := by
  obtain ⟨present, done, undone, depth⟩ := log
  have hpast := h.past
  cases depth with
  | zero => exact absurd hpast hp
  | succ depth =>
    cases done with
    | nil => exact absurd hpast hp
    | cons step done => exact ⟨step, done, depth, rfl, rfl, (h.latest step rfl).trans h.current.symm, hpast⟩

theorem undo (h : p.Follows log) : p.undo.Follows log.back := by
  by_cases hp : p.past = []
  · have hdepth : log.depth = 0 := by
      have hlength := congrArg List.length h.past
      have := h.depth
      rw [hp, List.length_map, List.length_take, List.length_nil] at hlength
      omega
    have hback : log.back = log := by simp [Log.back, hdepth]
    have hundo : p.undo = p := by simp [Project.undo, hp]
    rwa [hback, hundo]
  · obtain ⟨step, done, depth, hdone, hdepth, hstep, hpast⟩ := h.exists_step hp
    have hback : log.back = ⟨step.1, done, step :: log.undone, depth⟩ := by
      simp [Log.back, hdone, hdepth]
    have hchain := hdone ▸ h.done
    have hnext := h.next
    rw [← h.current] at hnext
    rw [hback]
    simp only [Project.undo, hpast]
    exact {
      current := rfl
      past := rfl
      future := by simp [hstep, h.future]
      depth := by
        have := h.depth
        rw [hdone, hdepth] at this
        exact Nat.le_of_succ_le_succ this
      done := hchain.tail
      latest := fun s hs => ((List.isChain_cons.1 hchain).1 s hs).symm
      undone := List.isChain_cons.2 ⟨fun s hs => hstep.trans (hnext s hs).symm, h.undone⟩
      next := by simp }

theorem redo (h : p.Follows log) : p.redo.Follows log.forth := by
  cases hundone : log.undone with
  | nil =>
    have hforth : log.forth = log := by simp [Log.forth, hundone]
    have hredo : p.redo = p := by simp [Project.redo, h.future, hundone]
    rwa [hforth, hredo]
  | cons step undone =>
    have hforth : log.forth = ⟨step.2, step :: log.done, undone, log.depth + 1⟩ := by
      simp [Log.forth, hundone]
    have hchain := hundone ▸ h.undone
    have hstep : step.1 = p.current := (h.next step (by simp [hundone])).trans h.current.symm
    have hlatest := h.latest
    rw [← h.current] at hlatest
    rw [hforth]
    simp only [Project.redo, h.future, hundone, List.map_cons]
    exact {
      current := rfl
      past := by simp [hstep, h.past]
      future := rfl
      depth := Nat.succ_le_succ h.depth
      done := List.isChain_cons.2 ⟨fun s hs => hstep.trans (hlatest s hs).symm, h.done⟩
      latest := by simp
      undone := hchain.tail
      next := fun s hs => ((List.isChain_cons.1 hchain).1 s hs).symm }

end Follows

/-! ## Back and forth -/

theorem redo_undo (h : p.past ≠ []) : p.undo.redo = p := by
  obtain ⟨id, current, past, future⟩ := p
  cases past with
  | nil => exact absurd rfl h
  | cons t past => rfl

theorem length_past_undo (p : Project α ι) : p.undo.past.length = p.past.length - 1 := by
  cases hp : p.past <;> simp [undo, hp]

/-- As many steps forward as back lead to where they came from. -/
theorem redo_iterate_undo {k : Nat} (h : k ≤ p.past.length) : redo^[k] (undo^[k] p) = p := by
  induction k generalizing p with
  | zero => rfl
  | succ k ih =>
    have hundo : k ≤ p.undo.past.length := by
      rw [length_past_undo]
      omega
    rw [Function.iterate_succ_apply' redo, Function.iterate_succ_apply undo, ih hundo]
    exact redo_undo (List.ne_nil_of_length_pos (by omega))

/-- Each step back goes from the end to the start of the latest step that is done still. -/
theorem Follows.step_back (h : p.Follows log) {j : Nat} (hj : j < p.past.length) :
    ∃ step, log.done[j]? = some step ∧ (Project.undo^[j] p).current = step.2 ∧
      (Project.undo^[j + 1] p).current = step.1 := by
  induction j generalizing p log with
  | zero =>
    obtain ⟨step, done, depth, hdone, -, hstep, hpast⟩ :=
      h.exists_step (List.ne_nil_of_length_pos hj)
    exact ⟨step, by simp [hdone], hstep.symm, by simp [Project.undo, hpast]⟩
  | succ j ih =>
    obtain ⟨step, done, depth, hdone, hdepth, -, -⟩ :=
      h.exists_step (List.ne_nil_of_length_pos (Nat.zero_lt_of_lt hj))
    have hj' : j < p.undo.past.length := by
      rw [length_past_undo]
      omega
    obtain ⟨earlier, hget, hfrom, hto⟩ := ih h.undo hj'
    have hback : log.back.done = done := by simp [Log.back, hdone, hdepth]
    rw [hback] at hget
    exact ⟨earlier, by simpa [hdone] using hget, hfrom, hto⟩

end Project

/-! ## Requests -/

variable [Scalar α] [BEq ι] {limit : Nat} {p : Project α ι} {log : Log (Timeline α ι)}
  {command : Timeline α ι → Except ε (Timeline α ι × κ)}

/-- The log after a request. A command that gives an equal timeline, or is refused, is no step. -/
def Log.answer (limit : Nat) (log : Log (Timeline α ι)) :
    Project.Request ε κ α ι → Log (Timeline α ι)
  | .apply command =>
    match command log.present with
    | .ok (after, _) => if after == log.present then log else log.enter limit after
    | .error _ => log
  | .undo => log.back
  | .redo => log.forth

namespace Project

/-- The project after a request. A command that is refused leaves it as it is. -/
def answer (limit : Nat) (p : Project α ι) : Request ε κ α ι → Project α ι
  | .apply command =>
    match p.apply limit command with
    | .ok (q, _) => q
    | .error _ => p
  | .undo => p.undo
  | .redo => p.redo

theorem answer_of_error {e : ε} (h : command p.current = .error e) :
    p.answer limit (.apply command) = p := by
  simp only [answer, apply, h, Except.map]

theorem answer_of_ok {after : Timeline α ι} {more : κ} (h : command p.current = .ok (after, more)) :
    p.answer limit (.apply command) = p.commit limit after := by
  simp only [answer, apply, h, Except.map]

theorem commit_of_same {after : Timeline α ι} (h : (after == p.current) = true) :
    p.commit limit after = p := if_pos h

theorem commit_of_other (hlimit : 0 < limit) {after : Timeline α ι}
    (h : (after == p.current) = false) :
    p.commit limit after =
      { p with current := after, past := (p.current :: p.past).take limit, future := [] } := by
  simp [commit, h, keep, hlimit]

theorem Follows.commit (h : p.Follows log) (hlimit : 0 < limit) {after : Timeline α ι}
    (hne : (after == p.current) = false) :
    (p.commit limit after).Follows (log.enter limit after) := by
  rw [commit_of_other hlimit hne]
  exact {
    current := rfl
    past := by
      simp only [Log.enter, h.past, h.current]
      rw [List.map_take, List.map_take, List.map_cons, ← List.take_take, List.take_succ_cons]
    future := rfl
    depth := by
      have := h.depth
      simp only [Log.enter, List.length_cons]
      omega
    done := List.isChain_cons.2 ⟨fun s hs => (h.latest s hs).symm, h.done⟩
    latest := by simp [Log.enter]
    undone := .nil
    next := by simp [Log.enter] }

/-- **Every request** does to the project what it does to the log. -/
theorem Follows.answer (h : p.Follows log) (hlimit : 0 < limit) (r : Request ε κ α ι) :
    (p.answer limit r).Follows (log.answer limit r) := by
  cases r with
  | undo => exact h.undo
  | redo => exact h.redo
  | apply command =>
    cases hc : command p.current with
    | error e =>
      have hlog : log.answer limit (.apply command) = log := by
        simp only [Log.answer, ← h.current, hc]
      rwa [answer_of_error hc, hlog]
    | ok made =>
      have hlog : log.answer limit (.apply command) =
          if made.1 == p.current then log else log.enter limit made.1 := by
        simp only [Log.answer, ← h.current, hc]
      rw [answer_of_ok hc, hlog]
      cases hsame : made.1 == p.current with
      | true =>
        rw [commit_of_same hsame]
        exact h
      | false => exact h.commit hlimit hsame

/-- No request makes a history longer than the limit. -/
theorem answer_le (hlimit : 0 < limit) (h : p.past.length + p.future.length ≤ limit)
    (r : Request ε κ α ι) :
    (p.answer limit r).past.length + (p.answer limit r).future.length ≤ limit := by
  cases r with
  | undo =>
    cases hp : p.past <;> simp only [answer, undo, hp, List.length_cons, List.length_nil] at h ⊢ <;>
      omega
  | redo =>
    cases hf : p.future <;> simp only [answer, redo, hf, List.length_cons, List.length_nil] at h ⊢ <;>
      omega
  | apply command =>
    cases hc : command p.current with
    | error e => rwa [answer_of_error hc]
    | ok made =>
      rw [answer_of_ok hc]
      cases hsame : made.1 == p.current with
      | true => rwa [commit_of_same hsame]
      | false =>
        rw [commit_of_other hlimit hsame, List.length_take]
        exact Nat.min_le_left ..

/-! ## Any requests in any order -/

theorem Follows.foldl (h : p.Follows log) (hlimit : 0 < limit) (requests : List (Request ε κ α ι)) :
    (requests.foldl (Project.answer limit) p).Follows (requests.foldl (Log.answer limit) log) := by
  induction requests generalizing p log with
  | nil => exact h
  | cons r requests ih => exact ih (h.answer hlimit r)

theorem foldl_answer_le (hlimit : 0 < limit) (h : p.past.length + p.future.length ≤ limit)
    (requests : List (Request ε κ α ι)) :
    (requests.foldl (answer limit) p).past.length +
      (requests.foldl (answer limit) p).future.length ≤ limit := by
  induction requests generalizing p with
  | nil => exact h
  | cons r requests ih => exact ih (answer_le hlimit h r)

/-- What is kept of the history of a project: the steps of its log, no more of them than the
limit says; what commands do to them; and the way back through those that are done. -/
structure Kept (ε κ : Type) (limit : Nat) (p : Project α ι) (log : Log (Timeline α ι)) : Prop where
  follows : p.Follows log
  bounded : p.past.length + p.future.length ≤ limit
  refused : ∀ (command : Timeline α ι → Except ε (Timeline α ι × κ)) (e : ε),
    command p.current = .error e → p.answer limit (.apply command) = p
  idle : ∀ (command : Timeline α ι → Except ε (Timeline α ι × κ)) (after : Timeline α ι) (more : κ),
    command p.current = .ok (after, more) → (after == p.current) = true →
      p.answer limit (.apply command) = p
  effective : ∀ (command : Timeline α ι → Except ε (Timeline α ι × κ)) (after : Timeline α ι)
    (more : κ), command p.current = .ok (after, more) → (after == p.current) = false →
      p.answer limit (.apply command) =
        { p with current := after, past := (p.current :: p.past).take limit, future := [] }
  restored : ∀ k ≤ p.past.length, Project.redo^[k] (Project.undo^[k] p) = p
  steps : ∀ j < p.past.length, ∃ step, log.done[j]? = some step ∧
    (Project.undo^[j] p).current = step.2 ∧ (Project.undo^[j + 1] p).current = step.1

/-- **A project keeps its history** through any requests. -/
theorem history_kept (hlimit : 0 < limit) (id : String) (t : Timeline α ι)
    (requests : List (Request ε κ α ι)) :
    (requests.foldl (answer limit) (new id t)).Kept ε κ limit
      (requests.foldl (Log.answer limit) (.start t)) := by
  have hfollows : (requests.foldl (answer limit) (new id t)).Follows
      (requests.foldl (Log.answer limit) (.start t)) :=
    (Follows.new id t).foldl hlimit requests
  exact {
    follows := hfollows
    bounded := foldl_answer_le (p := new id t) hlimit (Nat.zero_le limit) requests
    refused := fun _ _ h => answer_of_error h
    idle := fun _ _ _ h hsame => (answer_of_ok h).trans (commit_of_same hsame)
    effective := fun _ _ _ h hother => (answer_of_ok h).trans (commit_of_other hlimit hother)
    restored := fun _ hk => redo_iterate_undo hk
    steps := fun _ hj => hfollows.step_back hj }

/-- A command that gives a timeline a name, which may be the one it has. -/
def rename (name : String) : Request String Unit Rat String :=
  .apply fun t => .ok ({ t with projectName := .text name }, ())

/-- Three names in turn, one of them twice, and a refusal; then two steps back and one forward. -/
def renamings : List (Request String Unit Rat String) :=
  [rename "a", rename "a", rename "b", .apply fun _ => .error "no", rename "c", .undo, .undo, .redo]

theorem renamings_kept : 0 < 2 ∧
    ∃ p, renamings.foldl (answer 2) (new "p" (.empty "" .wide)) = p ∧
      p.current.projectName = .text "b" ∧ p.past.map (·.projectName) = [.text "a"] ∧
      p.future.map (·.projectName) = [.text "c"] ∧
      p.Kept String Unit 2 (renamings.foldl (Log.answer 2) (.start (.empty "" .wide))) :=
  ⟨by decide, _, rfl, by cbv, by cbv, by cbv, history_kept (by decide) "p" _ renamings⟩

end Project

end Montage
