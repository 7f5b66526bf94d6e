/-
How many steps of undo a request takes, and what one step of undo brings back.

The edits that a request comes down to are stored one after the other, and each of them that
changes something leaves behind the timeline that it changed (`Project.Leaves`). So one request is
as many steps of undo as it left timelines behind. If it left one, a step of undo brings back the
timeline before the request; if it left more, it brings back another one
(`Studio.Served.undo_after_edit`).
-/
import Montage.Proofs.Api.Served
import Montage.Proofs.Project.History

namespace Montage

variable {α : Type} [Scalar α]

/-! ## A track that is muted and locked -/

theorem Track.beq_parts {x y : Track α} (h : (x == y) = true) : x.id = y.id ∧ x.muted = y.muted := by
  cases x
  cases y
  simp only [BEq.beq, instBEqTrack.beq, Bool.and_eq_true, decide_eq_true_eq] at h
  obtain ⟨hid, -, -, -, hmuted, -, -⟩ := h
  exact ⟨hid, hmuted⟩

namespace Timeline

variable {t u : Timeline α} {track found : Track α} {id : String}

/-- Equal timelines have equal tracks in the same places. -/
theorem muted_of_beq (h : (t == u) = true) (id : String) :
    (t.findTrack id).map (·.muted) = (u.findTrack id).map (·.muted) := by
  have htracks : (t.tracks == u.tracks) = true := by
    simp only [BEq.beq, Bool.and_eq_true] at h
    obtain ⟨⟨⟨⟨⟨-, htracks⟩, -⟩, -⟩, -⟩, -⟩ := h
    exact htracks
  rw [findTrack, findTrack]
  generalize t.tracks = xs at htracks
  generalize u.tracks = ys at htracks
  induction xs generalizing ys with
  | nil => cases ys <;> simp_all
  | cons x xs ih =>
    cases ys with
    | nil => simp at htracks
    | cons y ys =>
      simp only [List.cons_beq_cons, Bool.and_eq_true] at htracks
      obtain ⟨hxy, hrest⟩ := htracks
      obtain ⟨hid, hmuted⟩ := Track.beq_parts hxy
      rw [List.find?_cons, List.find?_cons, hid]
      split
      · simp [hmuted]
      · exact ih ys hrest

omit [Scalar α] in
theorem findTrack_replaceTrack (h : t.findTrack id = some found) (hid : track.id = id) :
    (t.replaceTrack track).findTrack id = some track := by
  subst hid
  exact find?_key_replace (by rw [← findTrack, h]; rfl)

/-- To mute a track and to lock it is to change it. -/
theorem toggled_ne (h : t.findTrack id = some found) :
    ((t.toggleTrackMute id).toggleTrackLock id == t) = false := by
  have hid := (mem_of_findTrack h).2
  have hmuted : (t.toggleTrackMute id).findTrack id = some { found with muted := !found.muted } := by
    simp only [toggleTrackMute, h]
    exact findTrack_replaceTrack h hid
  have hlocked : ((t.toggleTrackMute id).toggleTrackLock id).findTrack id =
      some { found with muted := !found.muted, locked := !found.locked } := by
    rw [toggleTrackLock, hmuted]
    exact findTrack_replaceTrack hmuted hid
  rw [← Bool.not_eq_true]
  intro hsame
  have hmute := muted_of_beq hsame id
  rw [hlocked, h] at hmute
  cases hm : found.muted <;> simp [hm] at hmute

end Timeline

namespace Project

/-! ## What edits leave behind -/

/-- A project, some edits of it one after the other, the timelines that those of them that change
something leave behind, the latest first, and the project after them. -/
inductive Leaves (limit : Nat) :
    Project α → List (Edit α) → List (Timeline α) → Project α → Prop where
  | done (p : Project α) : Leaves limit p [] [] p
  | idle {p q : Project α} {e : Edit α} {es : List (Edit α)} {left : List (Timeline α)}
      {after : Timeline α} {ids rest : Ids} (hr : e.run p.current ids = .ok (after, rest))
      (hsame : (after == p.current) = true) : Leaves limit p es left q → Leaves limit p (e :: es) left q
  | step {p q : Project α} {e : Edit α} {es : List (Edit α)} {left : List (Timeline α)}
      {after : Timeline α} {ids rest : Ids} (hr : e.run p.current ids = .ok (after, rest))
      (hother : (after == p.current) = false) : Leaves limit (p.commit limit after) es left q →
      Leaves limit p (e :: es) (left ++ [p.current]) q

/-- A project before and after some edits, and the timelines that they left on its past, the latest
first: none if nothing has changed. As many steps of undo as these lead back; a single one leads
back if they are one, and elsewhere if they are more. -/
structure LeftBehind (limit : Nat) (p : Project α) (left : List (Timeline α)) (q : Project α) : Prop where
  idle : left = [] → q = p
  past : left ≠ [] → q.past = (left ++ p.past).take limit ∧ q.future = []
  back : left.length ≤ limit → (undo^[left.length] q).current = p.current
  one : left.length = 1 → q.undo.current = p.current
  many : 2 ≤ left.length → (q.undo.current == p.current) = false

variable {limit : Nat} {p q : Project α} {e : Edit α} {es : List (Edit α)} {left : List (Timeline α)}
  {t : Timeline α}

omit [Scalar α] in
theorem current_iterate_undo {k : Nat} (h : q.past[k]? = some t) : (undo^[k + 1] q).current = t := by
  induction k generalizing q with
  | zero =>
    cases hpast : q.past with
    | nil => simp [hpast] at h
    | cons u past => simpa [undo, hpast] using h
  | succ k ih =>
    rw [Function.iterate_succ_apply]
    refine ih ?_
    cases hpast : q.past with
    | nil => simp [hpast] at h
    | cons u past => simpa [undo, hpast] using h

namespace Leaves

theorem length_le (h : Leaves limit p es left q) : left.length ≤ es.length := by
  induction h with
  | done p => rfl
  | idle _ _ _ ih => exact Nat.le_succ_of_le ih
  | step _ _ _ ih => simpa using ih

/-- The last timeline left behind is the one before the edits, and the one after it is another. -/
theorem history (hlimit : 0 < limit) (h : Leaves limit p es left q) :
    (left = [] ∧ q = p) ∨
      ∃ later, left = later ++ [p.current] ∧ (∀ t ∈ later.getLast?, (t == p.current) = false) ∧
        q.past = (left ++ p.past).take limit ∧ q.future = [] := by
  induction h with
  | done p => exact .inl ⟨rfl, rfl⟩
  | idle _ _ _ ih => exact ih
  | @step p q e es left after ids rest hr hother _ ih =>
    rw [commit_of_other hlimit hother] at ih
    right
    rcases ih with ⟨rfl, rfl⟩ | ⟨later, rfl, -, hpast, hfuture⟩
    · exact ⟨[], rfl, by simp, rfl, rfl⟩
    · refine ⟨_, rfl, ?_, ?_, hfuture⟩
      · simpa using hother
      · rw [hpast, List.take_append, List.take_take, Nat.min_eq_left (Nat.sub_le _ _), ← List.take_append,
          List.append_assoc, List.append_assoc, List.append_assoc]
        rfl

/-- Three edits each of which changes something. -/
theorem three {d e f : Edit α} (hlimit : 0 < limit) (h : Leaves limit p [d, e, f] left q)
    (hlength : 3 ≤ left.length) : ∃ first second idsₒ ids rest more,
      d.run p.current idsₒ = .ok (first, rest) ∧ e.run first ids = .ok (second, more) ∧
        left = [second, first, p.current] := by
  have short {p : Project α} {es : List (Edit α)} {left : List (Timeline α)}
      (h : Leaves limit p es left q) (hlt : es.length + 1 ≤ left.length) : False :=
    absurd h.length_le (Nat.not_le.2 hlt)
  cases h with
  | idle _ _ h => exact (short h (by simpa using hlength)).elim
  | step hfirst hne h =>
    rw [commit_of_other hlimit hne] at h
    cases h with
    | idle _ _ h => exact (short h (by simpa using hlength)).elim
    | step hsecond hne h =>
      rw [commit_of_other hlimit hne] at h
      cases h with
      | idle _ _ h => exact (short h (by simpa using hlength)).elim
      | step _ _ h =>
        cases h
        exact ⟨_, _, _, _, _, _, hfirst, hsecond, rfl⟩

end Leaves

end Project

namespace Studio

variable {s : Studio α} {p q : Project α} {id : String} {es : List (Edit α)} {left : List (Timeline α)} {limit : Nat}

omit [Scalar α] in
theorem isFailure_refused (r : Refusal) : (Response.refused r : Response α).isFailure = true := by
  cases r <;> rfl

theorem exists_project_of_editAll (hok : (editAll id es s).2.isFailure = false) :
    ∃ p, s.project? id = some p := by
  cases hp : s.project? id with
  | some p => exact ⟨p, rfl⟩
  | none =>
    cases es <;> simp only [editAll, showProject, hp] at hok <;> cases hok

/-- Edits that are carried out, on the project that they are of. -/
theorem leaves_of_editAll (hlimit : s.historyLimit = limit) (hp : s.project? id = some p)
    (hok : (editAll id es s).2.isFailure = false) :
    ∃ q left, (editAll id es s).1.project? id = some q ∧ p.Leaves limit es left q := by
  induction es generalizing s p with
  | nil =>
    have hshown : editAll id [] s = (s, .ok p.shown) := by simp [editAll, showProject, hp]
    rw [hshown]
    exact ⟨p, [], hp, .done p⟩
  | cons e es ih =>
    simp only [editAll, hp] at hok ⊢
    cases hu : s.edit p e with
    | error r =>
      rw [hu] at hok
      simp [isFailure_refused] at hok
    | ok u =>
      rw [hu] at hok
      obtain ⟨after, rest, hr, hthere, hsame⟩ := project?_of_edit hp hu
      rw [hlimit] at hthere
      obtain ⟨q, left, hq, hleaves⟩ := ih (hsame.trans hlimit) hthere hok
      cases heq : after == p.current with
      | true =>
        rw [Project.commit_of_same heq] at hleaves
        exact ⟨q, left, hq, .idle hr heq hleaves⟩
      | false => exact ⟨q, _, hq, .step hr heq hleaves⟩

omit [Scalar α] in
/-- Only a patch of a track asks for three edits, and the first two of them mute it and lock it. -/
theorem Asks.three (h : s.Asks id es) (hp : s.project? id = some p) (hlength : 3 ≤ es.length) :
    ∃ trackId found e, p.current.findTrack trackId = some found ∧
      es = [.toggleTrackMute trackId, .toggleTrackLock trackId, e] := by
  cases h with
  | one e he => simp at hlength
  | project name ratio => cases name <;> cases ratio <;> simp at hlength
  | @track r found trackId patch hr hfound =>
    rw [hp, Option.some.injEq] at hr
    subst hr
    obtain rfl := (Timeline.mem_of_findTrack hfound).2
    obtain ⟨muted, locked, gain⟩ := patch
    simp only [trackEdits] at hlength ⊢
    cases gain with
    | none => split at hlength <;> split at hlength <;> simp at hlength
    | some gain =>
      split at hlength <;> split at hlength <;> simp at hlength
      next hmuted hlocked =>
      rw [if_pos hmuted, if_pos hlocked]
      exact ⟨_, found, _, hfound, rfl⟩
  | overlay overlayId patch => exact absurd (hlength.trans (length_overlayEdits overlayId patch)) (by decide)

/-- What the edits that a request asks for leave behind. -/
theorem Asks.leftBehind (h : s.Asks id es) (hp : s.project? id = some p) (hlimit : 0 < limit)
    (hl : p.Leaves limit es left q) : p.LeftBehind limit left q := by
  rcases hl.history hlimit with ⟨rfl, rfl⟩ | ⟨later, hleft, hnext, hpast, hfuture⟩
  · exact ⟨fun _ => rfl, (absurd rfl ·), fun _ => rfl, nofun, nofun⟩
  have hundo : ∀ t l, left = t :: l → q.undo.current = t := by
    rintro t l rfl
    obtain ⟨n, rfl⟩ := Nat.exists_eq_succ_of_ne_zero hlimit.ne'
    simp [Project.undo, hpast]
  refine ⟨fun hnil => ?_, fun _ => ⟨hpast, hfuture⟩, fun hle => ?_, fun hone => ?_, fun hmany => ?_⟩
  · rw [hnil] at hleft
    simp at hleft
  · have hlength : left.length = later.length + 1 := by simp [hleft]
    rw [hlength] at hle ⊢
    refine Project.current_iterate_undo ?_
    rw [hpast, List.getElem?_take_of_lt hle, hleft]
    simp
  · obtain rfl : later = [] := by simpa [hleft] using hone
    exact hundo _ _ hleft
  · rcases later with _ | ⟨t, _ | ⟨u, later⟩⟩
    · simp [hleft] at hmany
    · rw [hundo _ _ hleft]
      exact hnext t (by simp)
    · have hthree : 3 ≤ left.length := by simp [hleft]
      obtain ⟨trackId, found, e, hfound, rfl⟩ := h.three hp (hthree.trans hl.length_le)
      obtain ⟨first, second, _, _, _, _, hmute, hlock, rfl⟩ := hl.three hlimit hthree
      cases hmute
      cases hlock
      rw [hundo _ _ rfl]
      exact Timeline.toggled_ne hfound

/-! ## Requests -/

theorem respond_undo {runner : Runner α} {r : ApiRequest α}
    (hfound : Endpoint.find r.method r.target.path = .ok (.undo id)) (hq : s.project? id = some q) :
    (s.respond runner r).1.project? id = some q.undo := by
  obtain ⟨-, rfl⟩ := mem_of_project? hq
  have hundone := project?_putProject s q.undo
  rw [q.id_undo] at hundone
  have hturn : s.serve runner r.target r.payload (.undo q.id) = (s.undo q, .ok q.undo.shown) := by
    simp [serve, withProject, hq, showProject, undo, hundone]
  rw [respond_eq hfound, hturn]
  dsimp only
  split <;> exact hundone

/-- **One request is as many steps of undo as it left timelines behind.** In a studio that is
served, a request that edits a project and is carried out leaves behind some timelines, no more
than its endpoint has steps: none if nothing has changed, and then the history is as it was too.
If it left one behind, a request to undo brings back the timeline before it; if it left more, one
request to undo brings back another timeline, and only as many of them bring back that one. -/
theorem Served.undo_after_edit (h : s.Served) (runner : Runner α) {r : ApiRequest α} {endpoint : Endpoint}
    (hfound : Endpoint.find r.method r.target.path = .ok endpoint) (hedited : endpoint.edited? = some id)
    (hok : (s.respond runner r).2.status? = some 200) :
    ∃ (limit : Nat) (p q : Project α) (left : List (Timeline α)), s.historyLimit = limit ∧
      s.project? id = some p ∧ (s.respond runner r).1.project? id = some q ∧
      left.length ≤ endpoint.steps ∧ p.LeftBehind limit left q ∧
      ∀ (other : Runner α) (undo : ApiRequest α),
        Endpoint.find undo.method undo.target.path = .ok (.undo id) →
        ((s.respond runner r).1.respond other undo).1.project? id = some q.undo := by
  obtain ⟨limit, hpos, hlimit⟩ := (h.holds (P := fun _ => True) ⟨fun _ _ => trivial, fun _ _ _ => trivial⟩).limit
  have hturn := serve_of_edited s runner r.target r.payload hedited
  rw [respond_eq hfound] at hok ⊢
  generalize s.serve runner r.target r.payload endpoint = turn at hok hturn ⊢
  dsimp only at hok ⊢
  have hcarried : turn.2.isFailure = false := Response.isFailure_of_status? (Response.status?_of_written hok)
  have hkept : turn.2.written.isFailure = false := Response.isFailure_of_status? hok
  rw [hkept, if_neg Bool.false_ne_true]
  rcases hturn with hfails | ⟨es, hasks, hlength, rfl⟩
  · rw [hfails.response] at hcarried
    cases hcarried
  obtain ⟨p, hp⟩ := exists_project_of_editAll hcarried
  obtain ⟨q, left, hq, hleaves⟩ := leaves_of_editAll hlimit hp hcarried
  exact ⟨limit, p, q, left, hlimit, hp, hq, hleaves.length_le.trans hlength,
    hasks.leftBehind hp hpos hleaves, fun other undo hundo => respond_undo hundo hq⟩

/-- A studio that was asked for a project. -/
def untitled : Studio Rat :=
  ({ vacant [] (Environment.historyLimit []) with library := ∅ } : Studio Rat).answerAll promptly
    [⟨"POST", ⟨["video", "timelines"], []⟩, .data (.object [])⟩]

/-- A change of the project's name and of its shape. -/
def newLook : ApiRequest Rat :=
  ⟨"PATCH", ⟨["video", "timelines", "id1"], []⟩,
    .data (.object [("name", .text "X"), ("aspect_ratio", .text "1:1")])⟩

/-- A step back in the project. -/
def stepBack : ApiRequest Rat := ⟨"POST", ⟨["video", "timelines", "id1", "undo"], []⟩, .absent⟩

theorem untitled_served : untitled.Served := .answerAll promptly _ (.opened [] ∅)

theorem find_newLook : Endpoint.find newLook.method newLook.target.path = .ok (.patchProject "id1") := by
  cbv

theorem find_stepBack : Endpoint.find stepBack.method stepBack.target.path = .ok (.undo "id1") := by
  cbv

theorem newLook_ok : (untitled.respond promptly newLook).2.status? = some 200 := by decide +kernel

theorem untitled_after_newLook :
    untitled.Served ∧ (untitled.respond promptly newLook).2.status? = some 200 ∧
    ∃ (limit : Nat) (p q : Project Rat) (left : List (Timeline Rat)), untitled.historyLimit = limit ∧
      untitled.project? "id1" = some p ∧ (untitled.respond promptly newLook).1.project? "id1" = some q ∧
      left.length ≤ 2 ∧ p.LeftBehind limit left q ∧
      ((untitled.respond promptly newLook).1.respond promptly stepBack).1.project? "id1" = some q.undo := by
  obtain ⟨limit, p, q, left, hlimit, hp, hq, hlength, hleft, hundo⟩ :=
    untitled_served.undo_after_edit promptly find_newLook rfl newLook_ok
  exact ⟨untitled_served, newLook_ok, limit, p, q, left, hlimit, hp, hq, hlength, hleft,
    hundo promptly stepBack find_stepBack⟩

/-- A step back leaves the project with its new name. -/
theorem newLook_half_undone :
    untitled.Served ∧ (untitled.respond promptly newLook).2.status? = some 200 ∧
    ∃ p q w : Project Rat, untitled.project? "id1" = some p ∧
      (untitled.respond promptly newLook).1.project? "id1" = some q ∧
      ((untitled.respond promptly newLook).1.respond promptly stepBack).1.project? "id1" = some w ∧
      (q.current == p.current) = false ∧ (w.current == p.current) = false ∧
      (w.current.projectName == .text "X") = true := by
  have hseen : ((untitled.project? "id1").bind fun p =>
      ((untitled.respond promptly newLook).1.project? "id1").bind fun q =>
      (((untitled.respond promptly newLook).1.respond promptly stepBack).1.project? "id1").map fun w =>
        (q.current == p.current, w.current == p.current, w.current.projectName == .text "X")) =
      some (false, false, true) := by decide +kernel
  obtain ⟨p, hp, hseen⟩ := Option.bind_eq_some_iff.1 hseen
  obtain ⟨q, hq, hseen⟩ := Option.bind_eq_some_iff.1 hseen
  obtain ⟨w, hw, hseen⟩ := Option.map_eq_some_iff.1 hseen
  simp only [Prod.mk.injEq] at hseen
  exact ⟨untitled_served, newLook_ok, p, q, w, hp, hq, hw, hseen⟩

end Studio

end Montage
