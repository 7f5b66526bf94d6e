/-
Graphs in which each stream is read once.

The loose ends of a graph are the nodes that none has read yet. A graph is `Wired`
when its nodes read only what was there before them, in streams of their own
kind, and every node that is no loose end is read once. A node that reads loose
ends takes their place among them (`Wired.push`), so a graph with two ends left
reads all its other nodes exactly once (`Wired.count_eq_one`). What is read of the inputs
is told by the nodes that read them (`count_source`).
-/
import Mathlib.Data.List.Nodup
import Montage.Export.Graph

namespace Montage

deriving instance ReflBEq, LawfulBEq for Stream
deriving instance ReflBEq, LawfulBEq for Ref

/-- A node that is to be read, with the kind of its stream. -/
abbrev LooseEnd := Stream × Int

namespace Ref

def node? : Ref → Option Int
  | .node index => some index
  | .source _ _ => none

def isSource : Ref → Bool
  | .node _ => false
  | .source _ _ => true

theorem filterMap_node? (is : List Int) : (is.map Ref.node).filterMap node? = is := by
  rw [List.filterMap_map]
  exact List.filterMap_some

theorem count_filterMap_node? (rs : List Ref) (i : Int) :
    (rs.filterMap node?).count i = rs.count (.node i) := by
  induction rs with
  | nil => rfl
  | cons r rs ih =>
    cases r with
    | node j => simp [node?, List.count_cons, ih]
    | source j s =>
      rw [List.filterMap_cons_none rfl, ih]
      exact (List.count_cons_of_ne (by simp)).symm

end Ref

variable {φ : Type}

/-- Whether a node reads an input. -/
def Node.readsSource (n : Node φ) : Bool := n.inputs.any Ref.isSource

namespace Graph

variable {g : Graph φ} {n : Node φ} {ends rest : List LooseEnd}

/-- All that is read in a graph, in order. -/
def reads (g : Graph φ) : List Ref := g.nodes.flatMap (·.inputs)

/-- The nodes that read an input, in order. -/
def readers (g : Graph φ) : List (Node φ) := g.nodes.filter Node.readsSource

/-- The graph of the first nodes. -/
def upTo (g : Graph φ) (k : Nat) : Graph φ := ⟨g.nodes.take k⟩

/-- The kind of the stream that is read; none if it comes from a node that is not there. -/
def stream? (g : Graph φ) : Ref → Option Stream
  | .node index => if 0 ≤ index then g.nodes[index.toNat]?.map (·.stream) else none
  | .source _ s => some s

theorem stream?_node {index : Int} {s : Stream} :
    g.stream? (.node index) = some s ↔
      0 ≤ index ∧ ∃ n, g.nodes[index.toNat]? = some n ∧ n.stream = s := by
  simp [stream?]

theorem lt_size_of_stream? {index : Int} {s : Stream} (h : g.stream? (.node index) = some s) :
    0 ≤ index ∧ index < g.size := by
  obtain ⟨h0, n, hn, -⟩ := stream?_node.1 h
  have hlt := (List.getElem?_eq_some_iff.1 hn).1
  have hsize : g.size = g.nodes.length := rfl
  omega

theorem stream?_push_of_some {r : Ref} {s : Stream} (h : g.stream? r = some s) :
    (g.push n).stream? r = some s := by
  cases r with
  | source i t => exact h
  | node i =>
    obtain ⟨h0, m, hm, hs⟩ := stream?_node.1 h
    have hlt := (List.getElem?_eq_some_iff.1 hm).1
    exact stream?_node.2 ⟨h0, m, (List.getElem?_append_left hlt).trans hm, hs⟩

theorem stream?_push_size : (g.push n).stream? (.node g.size) = some n.stream := by
  simp [stream?, push, size]

theorem stream?_of_upTo {k : Nat} {r : Ref} {s : Stream} (h : (g.upTo k).stream? r = some s) :
    g.stream? r = some s := by
  cases r with
  | source i t => exact h
  | node i =>
    obtain ⟨h0, m, hm, hs⟩ := stream?_node.1 h
    have hlt := (List.getElem?_eq_some_iff.1 hm).1
    have hk : i.toNat < k := by
      simp only [upTo, List.length_take] at hlt
      omega
    rw [upTo, List.getElem?_take_of_lt hk] at hm
    exact stream?_node.2 ⟨h0, m, hm, hs⟩

/-- A node is added when all that it reads is there. -/
theorem add_of_stream? (h : ∀ r ∈ n.inputs, g.stream? r = some n.stream) :
    g.add n = .ok (g.push n) := by
  have hnone : n.inputs.findSome? g.missing? = none := List.findSome?_eq_none_iff.2 fun r hr => by
    cases r with
    | source i s => rfl
    | node i => exact if_pos (lt_size_of_stream? (h _ hr))
  simp [add, hnone]

theorem upTo_push {k : Nat} (h : k ≤ g.size) : (g.push n).upTo k = g.upTo k := by
  rw [push, upTo, upTo, List.take_append_of_le_length h]

theorem upTo_size (g : Graph φ) : g.upTo g.size = g := by
  rw [upTo, size, List.take_length]

/-- A node of a graph after a push is one from before, or the new one at the end. -/
theorem getElem?_push {k : Nat} {m : Node φ} (h : (g.push n).nodes[k]? = some m) :
    (k < g.size ∧ g.nodes[k]? = some m) ∨ (k = g.size ∧ m = n) := by
  rcases Nat.lt_or_ge k g.nodes.length with hk | hk
  · rw [push, List.getElem?_append_left hk] at h
    exact .inl ⟨hk, h⟩
  · rw [push, List.getElem?_append_right hk, List.getElem?_singleton] at h
    split at h
    · next hzero =>
      exact .inr ⟨Nat.le_antisymm (Nat.sub_eq_zero_iff_le.1 hzero) hk, (Option.some.inj h).symm⟩
    · cases h

@[simp] theorem reads_push : (g.push n).reads = g.reads ++ n.inputs := by
  simp [reads, push]

theorem readers_push_of (h : n.readsSource = true) : (g.push n).readers = g.readers ++ [n] := by
  simp [readers, push, h]

theorem readers_push_of_not (h : n.readsSource = false) : (g.push n).readers = g.readers := by
  simp [readers, push, h]

/-- An input is read by the nodes that read inputs. -/
theorem count_source (g : Graph φ) (i : Int) (s : Stream) :
    g.reads.count (.source i s) = (g.readers.flatMap (·.inputs)).count (.source i s) := by
  obtain ⟨nodes⟩ := g
  simp only [reads, readers]
  induction nodes with
  | nil => rfl
  | cons n nodes ih =>
    rw [List.flatMap_cons, List.count_append, ih, List.filter_cons]
    split
    · rw [List.flatMap_cons, List.count_append]
    · next hn =>
      have hnot : Ref.source i s ∉ n.inputs := fun hmem =>
        hn (List.any_eq_true.2 ⟨_, hmem, rfl⟩)
      rw [List.count_eq_zero.2 hnot, Nat.zero_add]

/-! ## Loose ends -/

/-- A graph that was built node by node, with the nodes that are still to be read. -/
structure Wired (g : Graph φ) (ends : List LooseEnd) : Prop where
  /-- No node was refused. -/
  added : g.nodes.foldlM Graph.add empty = .ok g
  reading : ∀ (k : Nat) (n : Node φ), g.nodes[k]? = some n →
    ∀ r ∈ n.inputs, (g.upTo k).stream? r = some n.stream
  loose : ∀ e ∈ ends, g.stream? (.node e.2) = some e.1
  once : (g.reads.filterMap Ref.node? ++ ends.map (·.2)).Perm
    ((List.range g.size).map Int.ofNat)

theorem wired_empty : (empty : Graph φ).Wired [] where
  added := rfl
  reading := by simp [empty]
  loose := by simp
  once := by simp [empty, reads, size]

theorem Wired.perm {others : List LooseEnd} (h : g.Wired ends) (hp : others.Perm ends) :
    g.Wired others where
  added := h.added
  reading := h.reading
  loose e he := h.loose e (hp.mem_iff.1 he)
  once := ((hp.map _).append_left _).trans h.once

/-- A node that reads loose ends becomes one in their place. -/
theorem Wired.push (taken : List LooseEnd) (h : g.Wired (taken ++ rest))
    (hread : n.inputs.filterMap Ref.node? = taken.map (·.2)) (hkind : ∀ e ∈ taken, e.1 = n.stream)
    (hsource : ∀ i s, .source i s ∈ n.inputs → s = n.stream) :
    (g.push n).Wired ((n.stream, (g.size : Int)) :: rest) := by
  -- What the node reads of the graph are loose ends, which are there and of its kind.
  have hinputs : ∀ r ∈ n.inputs, g.stream? r = some n.stream := fun r hr => by
    cases r with
    | source i s => exact congrArg some (hsource i s hr)
    | node i =>
      have hi : i ∈ taken.map (·.2) := hread ▸ List.mem_filterMap.2 ⟨_, hr, rfl⟩
      obtain ⟨e, he, rfl⟩ := List.mem_map.1 hi
      rw [h.loose e (List.mem_append_left _ he), hkind e he]
  refine ⟨?_, fun k m hm r hr => ?_, fun e he => ?_, ?_⟩
  · rw [Graph.push, List.foldlM_append, h.added]
    exact bind_pure (g.add n) |>.trans (add_of_stream? hinputs)
  · rcases getElem?_push hm with ⟨hk, hm⟩ | ⟨rfl, rfl⟩
    · rw [upTo_push (Nat.le_of_lt hk)]
      exact h.reading k m hm r hr
    · rw [upTo_push (Nat.le_refl _), upTo_size]
      exact hinputs r hr
  · rcases List.mem_cons.1 he with rfl | he
    · exact stream?_push_size
    · exact stream?_push_of_some (h.loose e (List.mem_append_right _ he))
  · have hsize : (g.push n).size = g.size + 1 := by simp [Graph.push, size]
    have honce := h.once
    rw [hsize, List.range_succ, List.map_append, List.map_singleton, reads_push,
      List.filterMap_append, hread, List.map_cons]
    rw [List.map_append, ← List.append_assoc] at honce
    exact List.perm_middle.trans ((List.perm_append_singleton _ _).symm.trans
      (honce.append_right _))

/-! ## Reading once -/

section Reading

variable {k : Nat}

theorem Wired.earlier (h : g.Wired ends) (hn : g.nodes[k]? = some n) {i : Int}
    (hi : .node i ∈ n.inputs) : 0 ≤ i ∧ i < k := by
  obtain ⟨h0, hlt⟩ := lt_size_of_stream? (h.reading k n hn _ hi)
  simp only [upTo, size, List.length_take] at hlt
  omega

theorem Wired.stream?_eq (h : g.Wired ends) (hn : n ∈ g.nodes) {r : Ref} (hr : r ∈ n.inputs) :
    g.stream? r = some n.stream := by
  obtain ⟨k, hk⟩ := List.mem_iff_getElem?.1 hn
  exact stream?_of_upTo (h.reading k n hk r hr)

theorem Wired.count_node (h : g.Wired ends) (hk : k < g.size) :
    g.reads.count (.node k) + (ends.map (·.2)).count (k : Int) = 1 := by
  have hinj : Function.Injective Int.ofNat := fun _ _ => Int.ofNat.inj
  have hrange : ((List.range g.size).map Int.ofNat).count (k : Int) = 1 :=
    List.count_eq_one_of_mem (List.nodup_range.map hinj)
      (List.mem_map.2 ⟨k, List.mem_range.2 hk, rfl⟩)
  rw [← Ref.count_filterMap_node?, ← List.count_append, h.once.count_eq, hrange]

/-- A node that is no loose end is read once. -/
theorem Wired.count_eq_one (h : g.Wired ends) (hk : k < g.size) (hne : ∀ e ∈ ends, e.2 ≠ k) :
    g.reads.count (.node k) = 1 := by
  have hzero : (ends.map (·.2)).count (k : Int) = 0 := List.count_eq_zero.2 fun hmem => by
    obtain ⟨e, he, hek⟩ := List.mem_map.1 hmem
    exact hne e he hek
  have := h.count_node hk
  omega

/-- A loose end is not read. -/
theorem Wired.count_eq_zero (h : g.Wired ends) {e : LooseEnd} (he : e ∈ ends) :
    g.reads.count (.node e.2) = 0 := by
  obtain ⟨h0, hlt⟩ := lt_size_of_stream? (h.loose e he)
  obtain ⟨k, hk⟩ := Int.eq_ofNat_of_zero_le h0
  have hone := h.count_node (k := k) (by omega)
  have hpos : 0 < (ends.map (·.2)).count (k : Int) :=
    List.count_pos_iff.2 (List.mem_map.2 ⟨e, he, hk⟩)
  rw [hk]
  omega

end Reading

end Graph

end Montage
