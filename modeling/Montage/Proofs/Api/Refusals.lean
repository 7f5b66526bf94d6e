/-
Requests that fail leave no trace, in exact arithmetic.

A request may come down to several edits of a project, each of them stored at once. It leaves no
trace if it fails because only the first of them can be refused: every later one is sure, for it
is refused on no timeline within its bounds (`Edit.Sure`, `Studio.Asks.sure`), and every timeline
of a studio that is served is within its bounds.
-/
import Montage.Proofs.Api.Served

namespace Montage

/-! ## Edits that are not refused -/

namespace Edit

theorem keeps_valid : Keeps Timeline.Valid where
  empty name _ := ⟨⟨name, rfl⟩, nofun, nofun, nofun, nofun⟩
  run h he hr := h.run he hr

/-- An edit that is refused on no timeline within its bounds. -/
def Sure (e : Edit Rat) : Prop := ∀ t : Timeline Rat, t.Valid → ∀ ids, ∃ r, e.run t ids = .ok r

theorem sure_setAspectRatio (ratio : AspectRatio) : (setAspectRatio (.text ratio.word)).Sure := by
  intro t ht ids
  rw [run, ht.setAspectRatio_eq ratio]
  exact ⟨_, rfl⟩

end Edit

namespace Studio

variable {s : Studio Rat} {p : Project Rat} {id : String} {es : List (Edit Rat)}

/-- Of the edits that a request asks for only the first one may be refused. -/
theorem Asks.sure (h : s.Asks id es) : ∀ e ∈ es.tail, e.Sure := by
  cases h with
  | one e he => simp
  | project name ratio =>
    intro e he
    obtain ⟨ratio, rfl⟩ : ∃ ratio : AspectRatio, e = .setAspectRatio (.text ratio.word) := by
      cases name <;> cases ratio <;> simp at he
      exact ⟨_, he⟩
    exact Edit.sure_setAspectRatio ratio
  | @track p found trackId patch hp hfound =>
    intro e he
    have he := List.mem_of_mem_tail he
    simp only [trackEdits, List.mem_append, List.mem_ite_nil_right, List.mem_singleton, List.mem_map] at he
    rcases he with (⟨-, rfl⟩ | ⟨-, rfl⟩) | ⟨gain, -, rfl⟩ <;> exact fun _ _ _ => ⟨_, rfl⟩
  | overlay overlayId patch =>
    intro e he
    obtain ⟨trackId, rfl⟩ : ∃ trackId, e = .moveOverlay overlayId trackId := by
      unfold overlayEdits at he
      cases htrack : nonempty? patch.trackId <;> rw [htrack] at he <;> split at he <;> simp at he
      exact ⟨_, he⟩
    exact fun _ _ _ => ⟨_, rfl⟩

/-! ## Edits of a project that is there -/

/-- Sure edits of a project that is there are carried out and shown. -/
theorem editAll_of_sure (hes : ∀ e ∈ es, e.Sure ∧ e.NamesWithText) (h : s.Holds Timeline.Valid)
    (hp : s.project? id = some p) : ∃ q : Project Rat, (editAll id es s).2 = .ok q.shown := by
  induction es generalizing s p with
  | nil => exact ⟨p, by simp [editAll, showProject, hp]⟩
  | cons e es ih =>
    obtain ⟨hsure, hnames⟩ := hes e List.mem_cons_self
    have hmem := (mem_of_project? hp).1
    obtain ⟨⟨after, rest⟩, hr⟩ := hsure p.current (h.timelines p hmem _ List.mem_cons_self) s.ids
    have hu := edit_eq_ok.2 ⟨after, rest, hr, rfl⟩
    obtain ⟨_, _, -, hthere, -⟩ := project?_of_edit hp hu
    simp only [editAll, hp, hu]
    exact ih (fun e he => hes e (List.mem_cons_of_mem _ he)) (h.edit Edit.keeps_valid hp hnames hu) hthere

theorem editAll_traceless (h : s.Holds Timeline.Valid) (hasks : s.Asks id es) :
    s.Traceless (editAll id es s) := by
  have hsure := hasks.sure
  have hnames := hasks.namesWithText
  cases es with
  | nil =>
    unfold editAll showProject
    split <;> exact .self
  | cons e es =>
    unfold editAll
    split
    · exact .self
    next p hp =>
    split
    · exact .self
    next u hu =>
    have hkept := h.edit Edit.keeps_valid hp (hnames e List.mem_cons_self) hu
    obtain ⟨_, _, -, hthere, -⟩ := project?_of_edit hp hu
    obtain ⟨q, hq⟩ := editAll_of_sure (fun e he => ⟨hsure e he, hnames e (List.mem_cons_of_mem _ he)⟩)
      hkept hthere
    have hturn : editAll id es u = ((editAll id es u).1, .ok q.shown) := Prod.ext rfl hq
    rw [hturn]
    exact .ok

/-! ## Requests -/

theorem Holds.serve_traceless (h : s.Holds Timeline.Valid) (runner : Runner Rat) (target : Target)
    (payload : Payload Rat) (endpoint : Endpoint) :
    s.Traceless (s.serve runner target payload endpoint) := by
  cases hedited : endpoint.edited? with
  | none => exact (serve_of_unedited h.housed runner target payload hedited).traceless
  | some id =>
    rcases serve_of_edited s runner target payload hedited with hfails | ⟨es, hasks, -, he⟩
    · exact fun _ _ _ => hfails.studio
    · rw [he]
      exact editAll_traceless h hasks

/-- **A request that fails leaves no trace.** In a studio that is served, whatever request comes
in and whatever runner carries out renders: if it is answered with a status of 400 or more, all
projects with their past and their future, the library and the jobs, and all else that the studio
keeps, are as before. -/
theorem Served.respond_of_failure (h : s.Served) (runner : Runner Rat) (r : ApiRequest Rat) {status : Nat}
    (hr : (s.respond runner r).2.status? = some status) (hstatus : 400 ≤ status) :
    (s.respond runner r).1 = s := by
  cases hfound : Endpoint.find r.method r.target.path with
  | error unrouted => cases unrouted <;> simp only [respond, hfound]
  | ok endpoint =>
    rw [respond_eq hfound] at hr ⊢
    dsimp only at hr ⊢
    have htraceless := (h.holds Edit.keeps_valid).serve_traceless runner r.target r.payload endpoint
    rw [htraceless status (Response.status?_of_written hr) hstatus]
    split <;> rfl

/-- A studio that was asked for a project and a text in it. -/
def captioned : Studio Rat :=
  ({ vacant [] (Environment.historyLimit []) with library := ∅ } : Studio Rat).answerAll promptly [
    ⟨"POST", ⟨["video", "timelines"], []⟩, .data (.object [])⟩,
    ⟨"POST", ⟨["video", "timelines", "id1", "text-overlays"], []⟩, .data (.object [("text", .text "T")])⟩]

/-- A change that would move the text to its track if it could be shown for less than no time. -/
def hastyPatch : ApiRequest Rat :=
  ⟨"PATCH", ⟨["video", "timelines", "id1", "text-overlays", "id3"], []⟩,
    .data (.object [("duration", .real (-1)), ("track_id", .text "id2")])⟩

theorem captioned_after_refusal :
    captioned.Served ∧ (captioned.project? "id1").map (·.past.length) = some 1 ∧
    (captioned.respond promptly hastyPatch).2.status? = some 400 ∧
    (captioned.respond promptly hastyPatch).1 = captioned := by
  have hserved : captioned.Served := .answerAll promptly _ (.opened [] ∅)
  have hstatus : (captioned.respond promptly hastyPatch).2.status? = some 400 := by decide +kernel
  exact ⟨hserved, by decide +kernel, hstatus,
    hserved.respond_of_failure promptly hastyPatch hstatus le_rfl⟩

end Studio

end Montage
