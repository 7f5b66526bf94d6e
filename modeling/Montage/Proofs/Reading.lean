/-
Reading, taken apart.

A report is valid just when all of its parts are (`Report.seq_eq_valid`,
`Report.items_eq_valid`), a field reads what was put there last
(`Fields.get?_put`, `Fields.get?_override_of_all`), and the readers of single
values give back what was written.
-/
import Mathlib.Data.List.Forall2
import Montage.Proofs.Rational

namespace Montage

/-! ## Results -/

@[simp] theorem bind_eq_ok {ε β γ : Type} {x : Except ε β} {f : β → Except ε γ} {c : γ} :
    (x >>= f) = .ok c ↔ ∃ b, x = .ok b ∧ f b = .ok c := by
  cases x <;> simp [bind, Except.bind]

@[simp] theorem map_eq_ok {ε β γ : Type} {x : Except ε β} {f : β → γ} {c : γ} :
    x.map f = .ok c ↔ ∃ b, x = .ok b ∧ f b = c := by
  cases x <;> simp [Except.map]

/-- What is made beside something that stays as it is. -/
theorem eq_ok_of_map_pair {ε β γ : Type} {x : Except ε β} {b : β} {c k : γ}
    (h : x.map (fun b => (b, k)) = .ok (b, c)) : x = .ok b := by
  obtain ⟨_, hx, he⟩ := map_eq_ok.1 h
  rw [hx, (Prod.mk.inj he).1]

/-! ## Reports -/

namespace Report

variable {β γ : Type}

@[simp] theorem seq_eq_valid {f : Report (β → γ)} {r : Report β} {c : γ} :
    f <*> r = .valid c ↔ ∃ g b, f = .valid g ∧ r = .valid b ∧ g b = c := by
  show f.seq r = .valid c ↔ _
  cases f <;> cases r <;> simp [seq]

@[simp] theorem map_eq_valid {f : β → γ} {r : Report β} {c : γ} :
    r.map f = .valid c ↔ ∃ b, r = .valid b ∧ f b = c := by
  cases r <;> simp [map]

@[simp] theorem functor_map_eq_valid {f : β → γ} {r : Report β} {c : γ} :
    f <$> r = .valid c ↔ ∃ b, r = .valid b ∧ f b = c := map_eq_valid

@[simp] theorem andThen_eq_valid {f : β → Report γ} {r : Report β} {c : γ} :
    r.andThen f = .valid c ↔ ∃ b, r = .valid b ∧ f b = .valid c := by
  cases r <;> simp [andThen]

@[simp] theorem under_eq_valid {place : Place} {r : Report β} {b : β} :
    r.under place = .valid b ↔ r = .valid b := by
  cases r <;> simp [under]

@[simp] theorem fault_ne_valid {f : Fault} {b : β} : (fault f : Report β) ≠ .valid b := by
  simp [fault]

@[simp] theorem orRefuse_eq_ok {r : Report β} {b : β} : r.orRefuse = .ok b ↔ r = .valid b := by
  cases r <;> simp [orRefuse]

theorem items_eq_valid {check : γ → Report β} :
    ∀ (xs : List γ) (i : Nat) (ys : List β),
      items check i xs = .valid ys ↔ List.Forall₂ (fun x y => check x = .valid y) xs ys
  | [], i, ys => by
    rw [List.forall₂_nil_left_iff]
    simp [items, eq_comm]
  | x :: xs, i, ys => by
    have hseq : items check i (x :: xs) =
      (((check x).under (.item i)).map List.cons <*> items check (i + 1) xs) := rfl
    simp only [hseq, seq_eq_valid, map_eq_valid, under_eq_valid, items_eq_valid xs,
      List.forall₂_cons_left_iff]
    constructor
    · rintro ⟨_, zs, ⟨y, hy, rfl⟩, hzs, rfl⟩
      exact ⟨y, zs, hy, hzs, rfl⟩
    · rintro ⟨y, zs, hy, hzs, rfl⟩
      exact ⟨_, zs, ⟨y, hy, rfl⟩, hzs, rfl⟩

end Report

/-! ## Fields -/

namespace Fields

variable {α β : Type} {fs changes : Fields α} {name other : String} {value : Json α}

@[simp] theorem get?_nil (name : String) : get? ([] : Fields α) name = none := rfl

@[simp] theorem get?_cons (f : String × Json α) (fs : Fields α) (name : String) :
    get? (f :: fs) name = if f.1 = name then some f.2 else get? fs name := by
  unfold get?
  rw [List.find?_cons]
  by_cases h : f.1 = name
  · simp [h]
  · simp only [beq_eq_false_iff_ne.2 h, if_neg h]

@[simp] theorem has_nil (name : String) : has ([] : Fields α) name = false := rfl

@[simp] theorem has_cons (f : String × Json α) (fs : Fields α) (name : String) :
    has (f :: fs) name = (f.1 == name || has fs name) := rfl

theorem has_eq_isSome (fs : Fields α) (name : String) : fs.has name = (fs.get? name).isSome := by
  induction fs with
  | nil => rfl
  | cons f fs ih => by_cases h : f.1 = name <;> simp [h, ih]

theorem get?_append (fs gs : Fields α) (name : String) :
    get? (fs ++ gs) name = (fs.get? name).or (gs.get? name) := by
  induction fs with
  | nil => simp
  | cons f fs ih => by_cases h : f.1 = name <;> simp [h, ih]

theorem get?_map_set (fs : Fields α) (name other : String) (value : Json α) :
    get? (fs.map fun f => if f.1 == name then (name, value) else f) other =
      if name = other ∧ fs.has name = true then some value else fs.get? other := by
  induction fs with
  | nil => simp
  | cons f fs ih =>
    rw [List.map_cons, get?_cons, ih]
    by_cases hf : f.1 = name
    · by_cases ho : name = other <;> simp [hf, ho]
    · by_cases ho : name = other
      · subst ho; simp [hf]
      · simp [hf, ho]

@[simp] theorem get?_put (fs : Fields α) (name other : String) (value : Json α) :
    (fs.put name value).get? other = if name = other then some value else fs.get? other := by
  unfold put
  split
  · next h => rw [get?_map_set]; simp [h]
  · next h =>
    have hnone : fs.get? name = none := by simpa [has_eq_isSome] using h
    rw [get?_append]
    by_cases ho : name = other
    · subst ho; simp [hnone]
    · simp [ho]

@[simp] theorem has_put (fs : Fields α) (name other : String) (value : Json α) :
    (fs.put name value).has other = (name == other || fs.has other) := by
  by_cases h : name = other <;> simp [has_eq_isSome, h]

/-- A field that no change names reads as before. -/
theorem get?_override_of_not_has :
    ∀ {fs changes : Fields α}, changes.has name = false →
      (fs.override changes).get? name = fs.get? name
  | _, [], _ => rfl
  | fs, change :: changes, h => by
    simp only [has_cons, Bool.or_eq_false_iff, beq_eq_false_iff_ne] at h
    show ((fs.put change.1 change.2).override changes).get? name = fs.get? name
    rw [get?_override_of_not_has h.2, get?_put, if_neg h.1]

/-- A field that a change names reads the same whatever there was before. -/
theorem get?_override_congr :
    ∀ {changes : Fields α} (fs gs : Fields α), changes.has name = true →
      (fs.override changes).get? name = (gs.override changes).get? name
  | [], _, _, h => by simp at h
  | change :: changes, fs, gs, h => by
    show ((fs.put change.1 change.2).override changes).get? name =
      ((gs.put change.1 change.2).override changes).get? name
    cases hc : Fields.has changes name with
    | true => exact get?_override_congr _ _ hc
    | false =>
      have hname : change.1 = name := by simpa [hc] using h
      rw [get?_override_of_not_has hc, get?_override_of_not_has hc, get?_put, get?_put, if_pos hname,
        if_pos hname]

/-- A field reads the one value that all changes of its name have. -/
theorem get?_override_of_all :
    ∀ {fs changes : Fields α}, changes.has name = true →
      (∀ change ∈ changes, change.1 = name → change.2 = value) →
      (fs.override changes).get? name = some value
  | _, [], h, _ => by simp at h
  | fs, change :: changes, h, hall => by
    show ((fs.put change.1 change.2).override changes).get? name = some value
    have hrest : ∀ c ∈ changes, c.1 = name → c.2 = value := fun c hc => hall c (by simp [hc])
    cases hc : Fields.has changes name with
    | true => exact get?_override_of_all hc hrest
    | false =>
      have hname : change.1 = name := by simpa [hc] using h
      rw [get?_override_of_not_has hc, get?_put, if_pos hname, hall change (by simp) hname]

theorem mem_put {change : String × Json α} (h : change ∈ changes.put name value) :
    change.1 = name ∨ change ∈ changes := by
  unfold put at h
  split at h
  · simp only [List.mem_map] at h
    obtain ⟨f, hf, rfl⟩ := h
    split
    · exact .inl rfl
    · exact .inr hf
  · simp only [List.mem_append, List.mem_singleton] at h
    rcases h with h | rfl
    · exact .inr h
    · exact .inl rfl

theorem eq_of_mem_put {change : String × Json α} (h : change ∈ changes.put name value)
    (hname : change.1 = name) : change.2 = value := by
  unfold put at h
  split at h
  · simp only [List.mem_map] at h
    obtain ⟨f, -, rfl⟩ := h
    split at hname
    · next hf => simp [hf]
    · next hf => simp [hname] at hf
  · next hhas =>
    simp only [List.mem_append, List.mem_singleton] at h
    rcases h with h | rfl
    · exact absurd (List.any_eq_true.2 ⟨change, h, by simpa using hname⟩) hhas
    · rfl

theorem require_eq_valid {read : Json α → Report β} {b : β} :
    fs.require name read = .valid b ↔ ∃ j, fs.get? name = some j ∧ read j = .valid b := by
  unfold require
  cases fs.get? name <;> simp

/-- A field that is there is read, whether it must be there or not. -/
theorem withDefault_of_get? {read : Json α → Report β} {default b : β}
    (h : fs.get? name = some value) :
    fs.withDefault name default read = .valid b ↔ read value = .valid b := by
  simp [withDefault, h]

end Fields

/-! ## Values -/

namespace Read

variable {α : Type}

@[simp] theorem text_text (s : String) : text (.text s : Json α) = .valid s := rfl

@[simp] theorem number_real (x : Rat) : number (.real x) = .valid x := rfl

@[simp] theorem boolean_bool [Scalar α] (b : Bool) : boolean (.bool b : Json α) = .valid b := rfl

@[simp] theorem label_data (s : String) :
    (Label.read (Label.data s : Json α) : Report String) = .valid s := rfl

@[simp] theorem optional_label (s : Option String) :
    optional Label.read (Label.optional s : Json α) = .valid s := by
  cases s <;> rfl

@[simp] theorem choice_mediaKind (k : MediaKind) : choice (.text k.word : Json α) = .valid k := by
  cases k <;> rfl

@[simp] theorem choice_trackKind (k : TrackKind) : choice (.text k.word : Json α) = .valid k := by
  cases k <;> rfl

@[simp] theorem choice_side (s : Side) : choice (.text s.word : Json α) = .valid s := by
  cases s <;> rfl

theorem nonnegative_eq_valid {j : Json Rat} {x : Rat} :
    nonnegative j = .valid x ↔ number j = .valid x ∧ 0 ≤ x := by
  unfold nonnegative
  simp only [Report.andThen_eq_valid, Scalar.zero_eq]
  constructor
  · rintro ⟨y, hy, hx⟩
    split at hx
    · cases hx; exact ⟨hy, ‹_›⟩
    · simp at hx
  · rintro ⟨hx, h0⟩
    exact ⟨x, hx, by simp [h0]⟩

theorem positive_eq_valid {j : Json Rat} {x : Rat} :
    positive j = .valid x ↔ number j = .valid x ∧ 0 < x := by
  unfold positive
  simp only [Report.andThen_eq_valid, Scalar.zero_eq]
  constructor
  · rintro ⟨y, hy, hx⟩
    split at hx
    · cases hx; exact ⟨hy, ‹_›⟩
    · simp at hx
  · rintro ⟨hx, h0⟩
    exact ⟨x, hx, by simp [h0]⟩

end Read

end Montage
