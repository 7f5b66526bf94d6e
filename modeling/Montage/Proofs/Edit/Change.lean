/-
What a change of a clip's fields leaves and what it sets.

A change keeps what a clip is and what it is linked to, in any arithmetic
(`Clip.kept_of_change`). In exact arithmetic it keeps the length of the media too,
floors the start and clamps the trims (`Clip.change_eq_ok`), the one at the start
before the one at the end (`clampTrims_eq_min`): they are never negative and leave
the least visible length (`clampTrims_fits`), and are kept where they already do
(`clampTrims_of_fits`). A change that asks for nothing else than what stands sets
just that (`Clip.change_eq_of_fields`).
-/
import Montage.Proofs.Edit.Trims
import Montage.Proofs.Valid

namespace Montage

/-! ## Trims -/

/-- Trims that leave the least visible length of a clip. -/
structure TrimsFit (raw head tail : Rat) : Prop where
  trimIn : 0 ≤ head
  trimOut : 0 ≤ tail
  visible : minClipDuration ≤ raw - head - tail

theorem clampTrims_eq_min {raw : Rat} (hraw : minClipDuration ≤ raw) (head tail : Rat) :
    clampTrims raw head tail = (min (max 0 head) (raw - minClipDuration),
      min (max 0 tail) (raw - minClipDuration - min (max 0 head) (raw - minClipDuration))) := by
  obtain ⟨hhead, htail⟩ := real_clampTrims hraw head tail
  rw [hhead] at htail
  simp only [trimRoom, Unrounded.real_rat] at hhead htail
  rw [minClipDuration_eq]
  refine Prod.ext (Unrounded.real_injective ?_) (Unrounded.real_injective ?_) <;>
    rw [Unrounded.real_rat, Unrounded.real_rat] <;> push_cast
  · exact hhead
  · exact htail

theorem clampTrims_fits {raw : Rat} (hraw : minClipDuration ≤ raw) (trimIn trimOut : Rat) :
    TrimsFit raw (clampTrims raw trimIn trimOut).1 (clampTrims raw trimIn trimOut).2 := by
  rw [clampTrims_eq_min hraw]
  have hhead := min_le_right (max 0 trimIn) (raw - minClipDuration)
  have htail := min_le_right (max 0 trimOut)
    (raw - minClipDuration - min (max 0 trimIn) (raw - minClipDuration))
  refine ⟨le_min (le_max_left _ _) (by linarith), le_min (le_max_left _ _) (by linarith), ?_⟩
  dsimp only
  linarith

theorem clampTrims_of_fits {raw trimIn trimOut : Rat} (h : TrimsFit raw trimIn trimOut) :
    clampTrims raw trimIn trimOut = (trimIn, trimOut) := by
  have hle : ¬ 0 < trimIn + trimOut + minClipDuration - raw := by
    have := h.visible
    linarith
  simp only [clampTrims, shareTrims, Scalar.larger_eq_max, Scalar.zero_eq, max_eq_right h.trimIn,
    max_eq_right h.trimOut, if_neg hle]

/-! ## Operands -/

namespace ClipChange

@[simp] theorem operand_real (x : Rat) : operand (.real x) = .ok x := rfl

/-- A floored value is a number that is read as its operand raised to zero. -/
theorem floor_eq_ok {j k : Json Rat} (h : floor j = .ok k) :
    ∃ x, operand j = .ok x ∧ operand k = .ok (max 0 x) ∧ Read.number k = .valid (max 0 x) := by
  cases j <;> simp only [floor, reduceCtorEq, Except.ok.injEq] at h <;> subst h
  case real x => exact ⟨x, rfl, by simp, by simp⟩
  case int n =>
    refine ⟨n, rfl, ?_⟩
    split
    · next hn =>
      have : max 0 (n : Rat) = n := max_eq_right (by exact_mod_cast hn.le)
      exact ⟨by rw [this]; rfl, by rw [this]; rfl⟩
    · next hn =>
      have : max 0 (n : Rat) = 0 := max_eq_left (by exact_mod_cast not_lt.1 hn)
      simp [this]
  case bool b =>
    cases b
    · exact ⟨0, rfl, by simp, by simp⟩
    · exact ⟨1, rfl, by simp; rfl, by simp; rfl⟩

theorem floor_real {x : Rat} (hx : 0 ≤ x) : floor (.real x) = .ok (.real x) := by
  simp [floor, hx]

/-- What can be calculated with can be floored. -/
theorem exists_floor {j : Json Rat} {x : Rat} (h : operand j = .ok x) :
    ∃ k, floor j = .ok k ∧ operand k = .ok (max 0 x) := by
  obtain ⟨k, hk⟩ : ∃ k, floor j = .ok k := by
    cases j
    case real | int | bool => exact ⟨_, rfl⟩
    all_goals cases h
  obtain ⟨y, hy, hfloored, -⟩ := floor_eq_ok hk
  rw [h, Except.ok.injEq] at hy
  exact ⟨k, hk, hy ▸ hfloored⟩

theorem operand_of_whole? {j : Json Rat} {n : Int} (h : j.whole? = some n) :
    operand j = .ok (n : Rat) := by
  cases j <;> simp only [Json.whole?, reduceCtorEq, Option.some.injEq] at h <;> subst h
  case int m => rfl
  case bool b => cases b <;> rfl

theorem sum_eq_ok {a b : Json Rat} {x y : Rat} (ha : operand a = .ok x) (hb : operand b = .ok y) :
    sum a b = .ok (x + y) := by
  unfold sum
  split
  · next m n hm hn =>
    rw [operand_of_whole? hm] at ha
    rw [operand_of_whole? hn] at hb
    cases ha
    cases hb
    show Except.ok ((m + n : Int) : Rat) = _
    rw [Rat.intCast_add]
  · rw [ha, hb]
    rfl

end ClipChange

/-! ## What every change keeps -/

section Kept

variable {α : Type} [Scalar α] {c d : Clip α} {changes floored : Fields α} {head tail : α}
  {name : String}

theorem ClipChange.floored_eq_ok (h : ClipChange.floored changes = .ok floored) :
    (changes.get? "start_time" = none ∧ floored = changes) ∨
      ∃ j k, changes.get? "start_time" = some j ∧ ClipChange.floor j = .ok k ∧
        floored = changes.put "start_time" k := by
  unfold ClipChange.floored at h
  split at h
  · next hnone =>
    cases h
    exact .inl ⟨hnone, rfl⟩
  · next j hj =>
    rw [map_eq_ok] at h
    obtain ⟨k, hk, rfl⟩ := h
    exact .inr ⟨j, k, hj, hk, rfl⟩

/-- Flooring the start neither adds a field that no edit may set nor touches another one. -/
theorem ClipChange.floored_other (h : ClipChange.floored changes = .ok floored) :
    ((∀ change ∈ changes, ClipChange.editable.contains change.1 = true) →
      ∀ change ∈ floored, ClipChange.editable.contains change.1 = true) ∧
    ∀ other, "start_time" ≠ other → floored.get? other = changes.get? other := by
  rcases ClipChange.floored_eq_ok h with ⟨-, rfl⟩ | ⟨j, k, -, -, rfl⟩
  · exact ⟨id, fun _ _ => rfl⟩
  · refine ⟨fun hedit change hc => ?_, fun other ho => by rw [Fields.get?_put, if_neg ho]⟩
    rcases Fields.mem_put hc with hname | hc
    · rw [hname]
      rfl
    · exact hedit change hc

namespace Clip

/-- The fields that a changed clip is read from. -/
def merged (c : Clip α) (changes : Fields α) (head tail : α) : Fields α :=
  ((c.fields.override changes).put "trim_in" (.real head)).put "trim_out" (.real tail)

omit [Scalar α] in
/-- A field but for the trims that no change names reads as it was. -/
theorem get?_merged_of_not_has (hin : "trim_in" ≠ name) (hout : "trim_out" ≠ name)
    (h : changes.has name = false) : (c.merged changes head tail).get? name = c.fields.get? name := by
  rw [merged, Fields.get?_put, if_neg hout, Fields.get?_put, if_neg hin,
    Fields.get?_override_of_not_has h]

omit [Scalar α] in
theorem get?_merged_start {k : Json α} :
    (c.merged (changes.put "start_time" k) head tail).get? "start_time" = some k := by
  rw [merged, Fields.get?_put, if_neg (by decide), Fields.get?_put, if_neg (by decide)]
  exact Fields.get?_override_of_all (by simp) fun _ => Fields.eq_of_mem_put

omit [Scalar α] in
/-- A field that no edit may set reads as it was. -/
theorem get?_merged_of_not_editable
    (h : ∀ change ∈ changes, ClipChange.editable.contains change.1 = true)
    (hname : ClipChange.editable.contains name = false) :
    (c.merged changes head tail).get? name = c.fields.get? name := by
  have hne : ∀ other, ClipChange.editable.contains other = true → other ≠ name := by
    rintro other ho rfl
    rw [ho] at hname
    cases hname
  refine get?_merged_of_not_has (hne _ rfl) (hne _ rfl) ?_
  rw [Fields.has, List.any_eq_false]
  exact fun change hc he => hne _ (h change hc) (beq_iff_eq.1 he)

/-- What a clip is, and what it is linked to. -/
structure Kept (c d : Clip α) : Prop where
  id : d.id = c.id
  mediaId : d.mediaId = c.mediaId
  trackId : d.trackId = c.trackId
  kind : d.kind = c.kind
  detachedAudio : d.detachedAudio = c.detachedAudio
  linkedVideo : d.linkedVideo = c.linkedVideo

/-- A clip that is read from fields that agree with those of another where no edit may
set them. -/
theorem kept_of_read {fs : Fields α}
    (hkeep : ∀ name, ClipChange.editable.contains name = false → fs.get? name = c.fields.get? name)
    (h : Clip.read fs = .valid d) : c.Kept d := by
  obtain ⟨h₁, h₂, h₃, h₄, -, -, -, -, -, -, -, -, h₁₃, h₁₄⟩ := Clip.read_eq_valid.1 h
  rw [Fields.require, hkeep _ rfl] at h₁ h₂ h₃ h₄
  rw [Fields.withDefault, hkeep _ rfl] at h₁₃ h₁₄
  simp [fields] at h₁ h₂ h₃ h₄ h₁₃ h₁₄
  exact ⟨h₁.symm, h₂.symm, h₃.symm, h₄.symm, h₁₃.symm, h₁₄.symm⟩

/-- A clip that is read back from its own fields. -/
theorem kept_of_recheck (h : c.recheck = .valid d) : c.Kept d := kept_of_read (fun _ _ => rfl) h

theorem read_of_change (h : c.change changes = .ok d) :
    ∃ floored head tail, ClipChange.floored changes = .ok floored ∧
      Clip.read (c.merged floored head tail) = .valid d := by
  unfold change at h
  simp only [bind_eq_ok, Report.orRefuse_eq_ok] at h
  obtain ⟨floored, hfloored, _, -, _, -, _, -, _, -, _, -, h⟩ := h
  exact ⟨floored, _, _, hfloored, h⟩

theorem kept_of_change (hedit : ∀ change ∈ changes, ClipChange.editable.contains change.1 = true)
    (h : c.change changes = .ok d) : c.Kept d := by
  obtain ⟨floored, head, tail, hfloored, hread⟩ := read_of_change h
  exact kept_of_read (fun name =>
    get?_merged_of_not_editable ((ClipChange.floored_other hfloored).1 hedit)) hread

end Clip

/-- A track that is read back from its own fields. -/
theorem Track.kept_of_read {x y : Track α} (h : Track.read x.fields = .valid y) :
    x.id = y.id ∧ x.kind = y.kind ∧ List.Forall₂ Clip.Kept x.clips y.clips := by
  unfold Track.read at h
  simp only [Report.seq_eq_valid, Report.functor_map_eq_valid] at h
  obtain ⟨_, _, ⟨_, _, ⟨_, _, ⟨_, clips, ⟨_, kind, ⟨_, _, ⟨id, hid, rfl⟩, -, rfl⟩, hkind, rfl⟩, hclips,
    rfl⟩, -, rfl⟩, -, rfl⟩, -, rfl⟩ := h
  have hget : x.fields.get? "clips" = some (.list (x.clips.map fun c => .object c.fields)) := by
    simp [Track.fields]
  refine ⟨?_, ?_, (read_list_eq_valid.1 ((Fields.withDefault_of_get? hget).1 hclips)).imp
    fun _ _ => Clip.kept_of_recheck⟩
  · simpa [Track.fields, Fields.require] using hid
  · simpa [Track.fields, Fields.require] using hkind

end Kept

/-! ## What changes set, in exact arithmetic -/

/-- What a change makes of a clip: `head` and `tail` are the trims that it asks for. -/
structure Clip.Changed (c : Clip Rat) (changes : Fields Rat) (head tail : Rat) (d : Clip Rat) :
    Prop extends c.Kept d where
  rawDuration : d.rawDuration = c.rawDuration
  trims : (d.trimIn, d.trimOut) = clampTrims c.rawDuration head tail
  head : ClipChange.operand ((changes.get? "trim_in").getD (.real c.trimIn)) = .ok head
  tail : ClipChange.operand ((changes.get? "trim_out").getD (.real c.trimOut)) = .ok tail
  start_of_none : changes.get? "start_time" = none → d.start = c.start
  start_of_some : ∀ j, changes.get? "start_time" = some j →
    ∃ x, ClipChange.operand j = .ok x ∧ d.start = max 0 x
  valid : d.Valid

namespace Clip

variable {c d : Clip Rat} {changes floored : Fields Rat} {head tail : Rat}

/-- The start that a change sets. -/
theorem start_of_merged (hfloored : ClipChange.floored changes = .ok floored)
    (h : (c.merged floored head tail).withDefault "start_time" 0.0 Read.nonnegative =
      .valid d.start) :
    (changes.get? "start_time" = none → d.start = c.start) ∧
      ∀ j, changes.get? "start_time" = some j →
        ∃ x, ClipChange.operand j = .ok x ∧ d.start = max 0 x := by
  rcases ClipChange.floored_eq_ok hfloored with ⟨hnone, rfl⟩ | ⟨j, k, hj, hk, rfl⟩
  · rw [Fields.withDefault, get?_merged_of_not_has (by decide) (by decide)
      (by simp [Fields.has_eq_isSome, hnone])] at h
    simp only [Clip.fields, Fields.get?_cons, String.reduceEq, if_false, if_true,
      Report.under_eq_valid, Read.nonnegative_eq_valid, Read.number_real,
      Report.valid.injEq] at h
    exact ⟨fun _ => h.1.symm, by simp [hnone]⟩
  · obtain ⟨x, hx, -, hread⟩ := ClipChange.floor_eq_ok hk
    rw [Fields.withDefault_of_get? get?_merged_start, Read.nonnegative_eq_valid, hread,
      Report.valid.injEq] at h
    refine ⟨by simp [hj], fun i hi => ?_⟩
    rw [hj, Option.some.injEq] at hi
    exact ⟨x, hi ▸ hx, h.1.symm⟩

/-- A change reads the clip anew with its start floored and the trims that are asked for clamped. -/
theorem change_eq_ok_iff : c.change changes = .ok d ↔ ∃ floored head tail,
    ClipChange.floored changes = .ok floored ∧
      ClipChange.operand ((floored.get? "trim_in").getD (.real c.trimIn)) = .ok head ∧
      ClipChange.operand ((floored.get? "trim_out").getD (.real c.trimOut)) = .ok tail ∧
      Clip.read (c.merged floored (clampTrims c.rawDuration head tail).1
        (clampTrims c.rawDuration head tail).2) = .valid d := by
  have hclamp (head tail : Rat) : shareTrims c.rawDuration (max 0 head + max 0 tail) (max 0 head)
      (max 0 tail) = clampTrims c.rawDuration head tail := by
    simp [clampTrims]
  unfold change
  simp only [bind_eq_ok, Report.orRefuse_eq_ok]
  constructor
  · rintro ⟨floored, hfloored, jIn, hIn, jOut, hOut, total, htotal, xIn, hxIn, xOut, hxOut, h⟩
    obtain ⟨head, hhead, hhead', -⟩ := ClipChange.floor_eq_ok hIn
    obtain ⟨tail, htail, htail', -⟩ := ClipChange.floor_eq_ok hOut
    obtain rfl : xIn = max 0 head := by simpa [hxIn] using hhead'
    obtain rfl : xOut = max 0 tail := by simpa [hxOut] using htail'
    obtain rfl : total = max 0 head + max 0 tail := by
      simpa [htotal] using ClipChange.sum_eq_ok hxIn hxOut
    rw [hclamp] at h
    exact ⟨floored, head, tail, hfloored, hhead, htail, h⟩
  · rintro ⟨floored, head, tail, hfloored, hhead, htail, h⟩
    obtain ⟨jIn, hIn, hxIn⟩ := ClipChange.exists_floor hhead
    obtain ⟨jOut, hOut, hxOut⟩ := ClipChange.exists_floor htail
    refine ⟨floored, hfloored, jIn, hIn, jOut, hOut, _, ClipChange.sum_eq_ok hxIn hxOut, _, hxIn, _,
      hxOut, ?_⟩
    rw [hclamp]
    exact h

theorem change_eq_ok (hedit : ∀ change ∈ changes, ClipChange.editable.contains change.1 = true)
    (h : c.change changes = .ok d) : ∃ head tail, c.Changed changes head tail d := by
  have hkept := kept_of_change hedit h
  obtain ⟨floored, head, tail, hfloored, hhead, htail, h⟩ := change_eq_ok_iff.1 h
  obtain ⟨-, -, -, -, -, hstart, hraw, htrimIn, htrimOut, -⟩ := Clip.read_eq_valid.1 h
  obtain ⟨hall, hother⟩ := ClipChange.floored_other hfloored
  rw [Fields.require, get?_merged_of_not_editable (hall hedit) rfl] at hraw
  rw [Fields.withDefault] at htrimIn htrimOut
  simp [fields, merged, Read.positive_eq_valid, Read.nonnegative_eq_valid] at hraw htrimIn htrimOut
  rw [hother _ (by decide)] at hhead htail
  obtain ⟨hnone, hsome⟩ := start_of_merged hfloored hstart
  exact ⟨head, tail, hkept, hraw.1.symm, Prod.ext htrimIn.1.symm htrimOut.1.symm, hhead, htail,
    hnone, hsome, valid_of_read h⟩

/-- A change that asks for trims in range gives the clip whose fields it sets. -/
theorem change_eq_of_fields (hfloored : ClipChange.floored changes = .ok floored)
    (hin : ClipChange.operand ((floored.get? "trim_in").getD (.real c.trimIn)) = .ok d.trimIn)
    (hout : ClipChange.operand ((floored.get? "trim_out").getD (.real c.trimOut)) = .ok d.trimOut)
    (hfit : TrimsFit c.rawDuration d.trimIn d.trimOut)
    (hfields : c.merged floored d.trimIn d.trimOut = d.fields) (hd : d.Valid) :
    c.change changes = .ok d := by
  refine change_eq_ok_iff.2 ⟨floored, d.trimIn, d.trimOut, hfloored, hin, hout, ?_⟩
  rw [clampTrims_of_fits hfit, hfields]
  exact read_fields hd

/-- A start and a trim at the start that are in range are set together. -/
theorem change_start {start : Rat} (hc : c.Valid) (hstart : 0 ≤ start)
    (hfit : TrimsFit c.rawDuration head c.trimOut) :
    c.change [("start_time", .real start), ("trim_in", .real head)] =
      .ok { c with start, trimIn := head } := by
  have hfloored : ClipChange.floored [("start_time", .real start), ("trim_in", .real head)] =
      .ok [("start_time", .real start), ("trim_in", .real head)] :=
    congrArg (Except.map _) (ClipChange.floor_real hstart)
  refine change_eq_of_fields hfloored rfl rfl hfit rfl ?_
  exact { hc with start := hstart, trimIn := hfit.trimIn }

theorem change_trimOut (hc : c.Valid) (hfit : TrimsFit c.rawDuration c.trimIn tail) :
    c.change [("trim_out", .real tail)] = .ok { c with trimOut := tail } := by
  have hfloored : ClipChange.floored [("trim_out", .real tail)] = .ok [("trim_out", .real tail)] := rfl
  refine change_eq_of_fields hfloored rfl rfl hfit rfl ?_
  exact { hc with trimOut := hfit.trimOut }

end Clip

end Montage
