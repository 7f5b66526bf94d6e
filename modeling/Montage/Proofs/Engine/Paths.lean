/-
Paths and their texts.

The names of a path that is read off a text are neither empty nor a point, and hold no
slash (`Path.Named`); so are those of the path under which it is written until it is whole.
Such a path is read back from its text (`Path.ofText_text`), so that whoever is told the text
finds the file.
-/
import Montage.Engine.Path

namespace Montage

theorem not_mem_of_mem_splitOn {x : Char} {l part : List Char} (h : part ∈ l.splitOn x) : x ∉ part := by
  induction l generalizing part with
  | nil =>
    rw [List.splitOn_nil, List.mem_singleton] at h
    simp [h]
  | cons y l ih =>
    rw [List.splitOn_cons_eq_if_modifyHead] at h
    split at h
    · rcases List.mem_cons.1 h with rfl | h
      · simp
      · exact ih h
    next hy =>
    cases hl : l.splitOn x with
    | nil => exact absurd hl (List.splitOn_ne_nil x l)
    | cons first rest =>
      rw [hl, List.modifyHead_cons, List.mem_cons] at h
      rcases h with rfl | h
      · rw [List.mem_cons, not_or]
        exact ⟨fun hxy => hy (by simp [hxy]), ih (by simp [hl])⟩
      · exact ih (by simp [hl, h])

namespace Path

/-- A path whose names stand for themselves in its text. -/
def Named (p : Path) : Prop := ∀ name ∈ p.names, name ≠ "" ∧ name ≠ "." ∧ '/' ∉ name.toList

variable {p q : Path} {name : String}

theorem ofText_named (s : String) : (ofText s).Named := by
  intro name hname
  simp only [ofText, List.mem_filter, List.mem_map, Bool.and_eq_true, decide_eq_true_eq] at hname
  obtain ⟨⟨part, hpart, rfl⟩, hne, hpoint⟩ := hname
  exact ⟨hne, hpoint, by simpa using not_mem_of_mem_splitOn hpart⟩

/-! ## From a path to its text and back -/

theorem Named.filter_eq (h : p.Named) :
    p.names.filter (fun name => name ≠ "" && name ≠ ".") = p.names :=
  List.filter_eq_self.2 fun name hname => by simp [(h name hname).1, (h name hname).2.1]

theorem Named.splitOn_eq (h : p.Named) (hne : p.names ≠ []) :
    (("/".intercalate p.names).toList.splitOn '/').map String.ofList = p.names := by
  rw [String.toList_intercalate, show "/".toList = ['/'] from rfl,
    List.splitOn_intercalate '/' _ (by simpa using hne), List.map_map]
  · exact List.map_id'' (fun name => String.ofList_toList) _
  · intro part hpart
    obtain ⟨name, hname, rfl⟩ := List.mem_map.1 hpart
    exact (h name hname).2.2

theorem Named.head_ne (h : p.Named) (hne : p.names ≠ []) :
    ∃ c rest, ("/".intercalate p.names).toList = c :: rest ∧ c ≠ '/' := by
  obtain ⟨name, names, hnames⟩ := List.exists_cons_of_ne_nil hne
  obtain ⟨hempty, -, hslash⟩ := h name (hnames ▸ List.mem_cons_self)
  obtain ⟨c, rest, hc⟩ := List.exists_cons_of_ne_nil (mt String.toList_eq_nil_iff.1 hempty)
  rw [hc, List.mem_cons, not_or] at hslash
  rw [hnames, String.toList_intercalate, List.map_cons, hc]
  cases names <;> exact ⟨c, _, rfl, Ne.symm hslash.1⟩

theorem Root.ofText_append (root : Root) {body : String} {c : Char} {rest : List Char}
    (hbody : body.toList = c :: rest) (hc : c ≠ '/') : Root.ofText (root.text ++ body) = root := by
  cases root <;>
    simp [Root.ofText, Root.text, Bool.eq_false_iff, String.startsWith_string_iff, hbody, hc.symm]

/-- The parts of a text are those of its body and, before them, an empty one for each slash of
its start. -/
theorem Root.splitOn_append (root : Root) (body : String) :
    ∃ n, (root.text ++ body).toList.splitOn '/' = List.replicate n [] ++ body.toList.splitOn '/' := by
  cases root with
  | here => exact ⟨0, by simp [Root.text]⟩
  | top => exact ⟨1, by simp [Root.text, List.splitOn_cons_eq_if_modifyHead]⟩
  | twice => exact ⟨2, by simp [Root.text, List.splitOn_cons_eq_if_modifyHead, List.replicate]⟩

theorem ofText_text (h : p.Named) : ofText p.text = p := by
  by_cases hne : p.names = []
  · -- three texts in all, the point among them
    obtain ⟨root, names⟩ := p
    cases hne
    cases root <;> decide +kernel
  have htext : p.text = p.root.text ++ "/".intercalate p.names := by simp [text, hne]
  obtain ⟨c, rest, hbody, hc⟩ := h.head_ne hne
  obtain ⟨n, hparts⟩ := p.root.splitOn_append ("/".intercalate p.names)
  have hnames : (ofText p.text).names = p.names := by
    rw [ofText, htext, hparts, List.map_append, h.splitOn_eq hne, List.filter_append, h.filter_eq]
    simp
  have hroot : (ofText p.text).root = p.root := by
    rw [ofText, htext, p.root.ofText_append hbody hc]
  show (⟨(ofText p.text).root, (ofText p.text).names⟩ : Path) = p
  rw [hroot, hnames]

/-! ## The path of a file that is not whole -/

theorem splitName_append (name : String) : (splitName name).1 ++ (splitName name).2 = name := by
  unfold splitName
  dsimp only
  split
  · exact String.append_empty
  next hparts =>
  simp only [Bool.or_eq_true, List.isEmpty_iff, not_or, List.reverse_eq_nil_iff] at hparts
  generalize hback : name.toList.reverse = back at hparts ⊢
  -- what is left from the back starts with the point itself
  obtain ⟨c, stem, hdrop⟩ := List.exists_cons_of_ne_nil (mt (congrArg (List.drop 1)) hparts.1)
  have hc : c = '.' := by
    have hhead := List.head?_dropWhile_not (fun c => decide (c ≠ '.')) back
    rw [hdrop] at hhead
    simpa using hhead
  rw [hdrop, hc, List.drop_one, List.tail_cons, ← String.ofList_append]
  calc String.ofList (stem.reverse ++ '.' :: (back.takeWhile (· ≠ '.')).reverse)
      = String.ofList (back.takeWhile (· ≠ '.') ++ back.dropWhile (· ≠ '.')).reverse := by
        rw [hdrop, hc, List.reverse_append, List.reverse_cons, List.append_assoc]
        rfl
    _ = String.ofList name.toList := by
        rw [List.takeWhile_append_dropWhile, ← hback, List.reverse_reverse]
    _ = name := String.ofList_toList

/-- What is not whole stands beside what is, under a longer name. -/
theorem unfinished?_eq_some (hq : p.unfinished? = some q) :
    ∃ parents name other, p.names = parents ++ [name] ∧ q = ⟨p.root, parents ++ [other]⟩ ∧
      other.length = name.length + 8 ∧ ('/' ∉ name.toList → '/' ∉ other.toList) := by
  obtain ⟨name, hname, rfl⟩ := Option.map_eq_some_iff.1 hq
  obtain ⟨parents, hparents⟩ := List.getLast?_eq_some_iff.1 hname
  have happend := splitName_append name
  generalize splitName name = parts at happend ⊢
  obtain ⟨stem, suffix⟩ := parts
  refine ⟨parents, name, stem ++ ".partial" ++ suffix, hparents, by simp [withName, hparents], ?_, ?_⟩
  · rw [← happend]
    simp only [String.length_append, show ".partial".length = 8 from rfl]
    omega
  · rw [← happend]
    simp

theorem Named.unfinished (h : p.Named) (hq : p.unfinished? = some q) : q.Named := by
  obtain ⟨parents, name, other, hnames, rfl, hlength, hslash⟩ := unfinished?_eq_some hq
  intro part hpart
  rcases List.mem_append.1 hpart with hpart | hpart
  · exact h part (by simp [hnames, hpart])
  · cases List.mem_singleton.1 hpart
    refine ⟨?_, ?_, hslash (h name (by simp [hnames])).2.2⟩ <;>
      · rintro rfl
        simp only [show "".length = 0 from rfl, show ".".length = 1 from rfl] at hlength
        omega

end Path

end Montage
