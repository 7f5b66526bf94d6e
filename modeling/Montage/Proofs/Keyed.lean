/-
Lists of things told apart by keys.

With distinct keys the thing of a key stands at one place of its list
(`exists_split_of_mem`), and is what the key leads to (`find?_key_eq_some`). Distinct or not, a
thing put in the place of those of its key is (`find?_key_replace`).
-/
import Mathlib.Data.List.Nodup

namespace Montage

variable {γ δ κ : Type} {key : γ → κ} {l : List γ} {x : γ}

/-- With distinct keys a thing stands at one place, and no other has its key. -/
theorem exists_split_of_mem (hn : (l.map key).Nodup) (hx : x ∈ l) :
    ∃ pre post, l = pre ++ x :: post ∧ ∀ y ∈ pre ++ post, key y ≠ key x := by
  obtain ⟨pre, post, rfl⟩ := List.append_of_mem hx
  refine ⟨pre, post, rfl, fun y hy he => ?_⟩
  rw [List.map_append, List.map_cons, List.nodup_middle, List.nodup_cons, ← List.map_append] at hn
  exact hn.1 (he ▸ List.mem_map_of_mem hy)

variable [BEq κ] [LawfulBEq κ]

theorem filter_ne_of_split {pre post : List γ} (h : ∀ y ∈ pre ++ post, key y ≠ key x) :
    (pre ++ x :: post).filter (fun y => key y != key x) = pre ++ post := by
  have hall : (pre ++ post).filter (fun y => key y != key x) = pre ++ post :=
    List.filter_eq_self.2 fun y hy => by simpa using h y hy
  rw [List.filter_append] at hall
  rw [List.filter_append, List.filter_cons]
  simpa using hall

theorem filter_eq_of_split {pre post : List γ} (h : ∀ y ∈ pre ++ post, key y ≠ key x) :
    (pre ++ x :: post).filter (fun y => key y == key x) = [x] := by
  have hnone : (pre ++ post).filter (fun y => key y == key x) = [] :=
    List.filter_eq_nil_iff.2 fun y hy => by simpa using h y hy
  rw [List.filter_append, List.append_eq_nil_iff] at hnone
  rw [List.filter_append, List.filter_cons]
  simp [hnone]

theorem map_at_of_split {pre post : List γ} {f g : γ → δ} (h : ∀ y ∈ pre ++ post, key y ≠ key x) :
    (pre ++ x :: post).map (fun y => if key y == key x then f y else g y) =
      pre.map g ++ f x :: post.map g := by
  have hne : ∀ y ∈ pre ++ post, (if key y == key x then f y else g y) = g y := fun y hy => by
    simp [h y hy]
  rw [List.map_append, List.map_cons,
    List.map_congr_left fun y hy => hne y (List.mem_append_left _ hy),
    List.map_congr_left fun y hy => hne y (List.mem_append_right _ hy)]
  simp

theorem flatMap_at_of_split {pre post : List γ} {f : γ → List γ}
    (h : ∀ y ∈ pre ++ post, key y ≠ key x) :
    (pre ++ x :: post).flatMap (fun y => if key y == key x then f y else [y]) =
      pre ++ (f x ++ post) := by
  have hne : ∀ y ∈ pre ++ post, (if key y == key x then f y else [y]) = [y] := fun y hy => by
    simp [h y hy]
  have hself : ∀ ys : List γ, (∀ y ∈ ys, (if key y == key x then f y else [y]) = [y]) →
      ys.flatMap (fun y => if key y == key x then f y else [y]) = ys := fun ys hys => by
    rw [List.flatMap_congr hys]
    simp
  rw [List.flatMap_append, List.flatMap_cons, hself pre fun y hy => hne y (by simp [hy]),
    hself post fun y hy => hne y (by simp [hy])]
  simp

theorem find?_key_eq_some (hn : (l.map key).Nodup) (hx : x ∈ l) {id : κ} (he : key x = id) :
    l.find? (fun y => key y == id) = some x := by
  have hsome : (l.find? fun y => key y == id).isSome := by
    rw [List.find?_isSome]
    exact ⟨x, hx, by simpa using he⟩
  obtain ⟨y, hy⟩ := Option.isSome_iff_exists.1 hsome
  have hkey := List.find?_some hy
  rw [hy, List.inj_on_of_nodup_map hn (List.mem_of_find?_eq_some hy) hx (by simpa [he] using hkey)]

/-- A thing put in the place of those of its key is what the key leads to. -/
theorem find?_key_replace (h : (l.find? fun y => key y == key x).isSome = true) :
    (l.map fun y => if key y == key x then x else y).find? (fun y => key y == key x) = some x := by
  have hkey : (fun y => key (if key y == key x then x else y) == key x) = fun y => key y == key x := by
    funext y
    cases he : key y == key x <;> simp [he]
  obtain ⟨y, hy⟩ := Option.isSome_iff_exists.1 h
  rw [List.find?_map, Function.comp_def, hkey, hy, Option.map_some, if_pos (List.find?_some hy)]

end Montage
