/-
How long the streams of a graph last, in exact arithmetic.

Sources and cuts last as long as they are told to. Pictures that cross-fade last
from the offset on as long as the second of them, sounds as long as both less
the overlap, and what is put one after another as long as all of it. Lengths are
computed node by node, and nodes added later do not change them (`Graph.length?_of_kept`).
-/
import Mathlib.Data.List.Induction
import Montage.Export.Compile
import Montage.Proofs.Export.Wiring
import Montage.Proofs.Rational

namespace Montage

/-- How long the stream lasts that a filter makes of streams of some lengths. Media are long
enough for what is cut from them, and what is held or padded is cut right after. -/
def Filter.length : Filter Rat → List Rat → Rat
  | .colorSource _ _ _ d _, _ => d
  | .silence d, _ => d
  | .cutLength d, _ => d
  | .cutSpan _ d, _ => d
  | .soundSpan _ d, _ => d
  | .soundLength d, _ => d
  | .crossFade _ _ offset, lengths => offset + lengths.getD 1 0
  | .soundCrossFade d, lengths => lengths.getD 0 0 + lengths.getD 1 0 - d
  | .concat _ _, lengths => lengths.sum
  | .delay ms, lengths => lengths.headD 0 + ms / 1000
  | _, lengths => lengths.headD 0

/-- The length that filters make one after another of some lengths. -/
def chained (fs : List (Filter Rat)) (lengths : List Rat) : List Rat :=
  fs.foldl (fun lengths f => [f.length lengths]) lengths

/-- How long what is read lasts, if nodes last some lengths. -/
def Ref.length (lengths : List Rat) : Ref → Rat
  | .node i => lengths.getD i.toNat 0
  | .source _ _ => 0

/-- How long a node lasts after nodes of some lengths. -/
def Node.length (n : Node (Filter Rat)) (lengths : List Rat) : Rat :=
  (chained n.filters (n.inputs.map (Ref.length lengths))).headD 0

/-! ## Filters that keep the length -/

/-- Filters of which none changes how long a stream is. -/
def Keeping (fs : List (Filter Rat)) : Prop := ∀ f ∈ fs, ∀ d, f.length [d] = d

theorem chained_append (fs gs : List (Filter Rat)) (lengths : List Rat) :
    chained (fs ++ gs) lengths = chained gs (chained fs lengths) := List.foldl_append

theorem keeping_nil : Keeping [] := by simp [Keeping]

theorem Keeping.chained_eq {fs : List (Filter Rat)} (h : Keeping fs) (d : Rat) :
    chained fs [d] = [d] := by
  induction fs with
  | nil => rfl
  | cons f fs ih =>
    have hf : chained (f :: fs) [d] = chained fs [f.length [d]] := rfl
    rw [hf, h f (by simp), ih fun g hg => h g (List.mem_cons_of_mem _ hg)]

theorem Keeping.append {fs gs : List (Filter Rat)} (hf : Keeping fs) (hg : Keeping gs) :
    Keeping (fs ++ gs) := List.forall_mem_append.2 ⟨hf, hg⟩

theorem Keeping.flatMap {β : Type} {xs : List β} {f : β → List (Filter Rat)}
    (h : ∀ x ∈ xs, Keeping (f x)) : Keeping (xs.flatMap f) := fun g hg => by
  obtain ⟨x, hx, hg⟩ := List.mem_flatMap.1 hg
  exact h x hx g hg

/-- A node is as long as its first filter makes it if the others keep that. -/
theorem Node.length_cons {op : String} {stream : Stream} {inputs : List Ref} {f : Filter Rat}
    {fs : List (Filter Rat)} (h : Keeping fs) (lengths : List Rat) :
    Node.length ⟨op, stream, inputs, f :: fs⟩ lengths =
      f.length (inputs.map (Ref.length lengths)) :=
  congrArg (List.headD · 0) (h.chained_eq _)

theorem keeping_normalVideo (fps : Int) : Keeping (normalVideo fps) := by
  simp [Keeping, normalVideo, Filter.length]

theorem keeping_normalAudio : Keeping normalAudio := by
  simp [Keeping, normalAudio, Filter.length]

theorem prefix_foldl_append {β γ : Type} (f : List γ → β → γ) (xs : List β) (start : List γ) :
    start <+: xs.foldl (fun made x => made ++ [f made x]) start := by
  induction xs generalizing start with
  | nil => exact List.prefix_rfl
  | cons x xs ih =>
    rw [List.foldl_cons]
    exact (List.prefix_append start [f start x]).trans (ih _)

theorem getElem?_of_kept {β : Type} {xs ys : List β} (h : xs <+: ys) {k : Nat} {x : β}
    (hk : xs[k]? = some x) : ys[k]? = some x := by
  obtain ⟨more, rfl⟩ := h
  exact (List.getElem?_append_left (List.getElem?_eq_some_iff.1 hk).1).trans hk

namespace Graph

variable {g g' : Graph (Filter Rat)} {n : Node (Filter Rat)} {d : Rat}

/-! ## Lengths of nodes -/

/-- How long the nodes of a graph last, in order. -/
def lengths (g : Graph (Filter Rat)) : List Rat :=
  g.nodes.foldl (fun lengths n => lengths ++ [n.length lengths]) []

/-- How long a node lasts; none if it is not there. -/
def length? (g : Graph (Filter Rat)) (i : Int) : Option Rat :=
  if 0 ≤ i then g.lengths[i.toNat]? else none

/-- Both streams of a strand last some time. -/
def Lasts (g : Graph (Filter Rat)) (s : Strand) (d : Rat) : Prop :=
  g.length? s.video = some d ∧ g.length? s.audio = some d

theorem lengths_push : (g.push n).lengths = g.lengths ++ [n.length g.lengths] := by
  simp [lengths, push, List.foldl_append]

theorem length_lengths (g : Graph (Filter Rat)) : g.lengths.length = g.size := by
  obtain ⟨nodes⟩ := g
  induction nodes using List.reverseRecOn with
  | nil => rfl
  | append_singleton nodes n ih =>
    have hpush : (⟨nodes ++ [n]⟩ : Graph (Filter Rat)) = push ⟨nodes⟩ n := rfl
    rw [hpush, lengths_push, List.length_append, ih]
    simp [push, size]

theorem lengths_of_kept (h : g.nodes <+: g'.nodes) : g.lengths <+: g'.lengths := by
  obtain ⟨more, hmore⟩ := h
  rw [lengths, lengths, ← hmore, List.foldl_append]
  exact prefix_foldl_append (fun lengths n => n.length lengths) more _

/-- Nodes that are added leave the lengths of those before them. -/
theorem length?_of_kept (h : g.nodes <+: g'.nodes) {i : Int} (hi : g.length? i = some d) :
    g'.length? i = some d := by
  unfold length? at hi ⊢
  split at hi
  · next h0 =>
    rw [if_pos h0]
    exact getElem?_of_kept (lengths_of_kept h) hi
  · cases hi

theorem Lasts.of_kept {s : Strand} (hs : g.Lasts s d) (h : g.nodes <+: g'.nodes) :
    g'.Lasts s d :=
  ⟨length?_of_kept h hs.1, length?_of_kept h hs.2⟩

theorem ref_length {i : Int} (h : g.length? i = some d) : Ref.length g.lengths (.node i) = d := by
  unfold length? at h
  split at h
  · simp [Ref.length, h]
  · cases h

theorem length?_push_size : (g.push n).length? g.size = some (n.length g.lengths) := by
  simp [length?, lengths_push, ← length_lengths]

theorem prefix_push (g : Graph (Filter Rat)) (n : Node (Filter Rat)) :
    g.nodes <+: (g.push n).nodes := List.prefix_append _ _

/-- Two new nodes that are equally long are a strand. -/
theorem lasts_pair {v a : Node (Filter Rat)} (hv : v.length g.lengths = d)
    (ha : a.length (g.push v).lengths = d) :
    ((g.push v).push a).Lasts ⟨g.size, (g.push v).size⟩ d :=
  ⟨length?_of_kept (prefix_push ..) (length?_push_size.trans (congrArg some hv)),
    length?_push_size.trans (congrArg some ha)⟩

/-! ## Cross-fades -/

/-- Two nodes, one after the other, that fade a strand into another one, in picture and sound
for the same time, which is no longer than either strand. -/
def CrossFades (g : Graph (Filter Rat)) (k : Nat) : Prop :=
  ∃ (kind : TransitionKind) (overlap offset left right : Rat) (a b : Strand)
    (fs gs : List (Filter Rat)),
    g.nodes[k]? = some ⟨"xfade", .video, [.node a.video, .node b.video],
      .crossFade kind overlap offset :: fs⟩ ∧
    g.nodes[k + 1]? = some ⟨"acrossfade", .audio, [.node a.audio, .node b.audio],
      .soundCrossFade overlap :: gs⟩ ∧
    g.Lasts a left ∧ g.Lasts b right ∧ overlap ≤ left ∧ overlap ≤ right

theorem CrossFades.of_kept {k : Nat} (hk : g.CrossFades k) (h : g.nodes <+: g'.nodes) :
    g'.CrossFades k := by
  obtain ⟨kind, overlap, offset, left, right, a, b, fs, gs, hv, ha, hl, hr, hleft, hright⟩ := hk
  exact ⟨kind, overlap, offset, left, right, a, b, fs, gs, getElem?_of_kept h hv,
    getElem?_of_kept h ha, hl.of_kept h, hr.of_kept h, hleft, hright⟩

/-- The cross-fades of a graph come in pairs of picture and sound, and fit what they fade. -/
structure FadesFit (g : Graph (Filter Rat)) : Prop where
  picture : ∀ (k : Nat) (n : Node (Filter Rat)), g.nodes[k]? = some n → n.op = "xfade" →
    g.CrossFades k
  sound : ∀ (k : Nat) (n : Node (Filter Rat)), g.nodes[k]? = some n → n.op = "acrossfade" →
    ∃ j, k = j + 1 ∧ g.CrossFades j

theorem fadesFit_empty : FadesFit empty := ⟨by simp [empty], by simp [empty]⟩

theorem FadesFit.push (h : g.FadesFit) (hv : n.op ≠ "xfade") (ha : n.op ≠ "acrossfade") :
    (g.push n).FadesFit where
  picture k m hm hop := by
    rcases getElem?_push hm with ⟨-, hm⟩ | ⟨-, rfl⟩
    · exact (h.picture k m hm hop).of_kept (prefix_push ..)
    · exact absurd hop hv
  sound k m hm hop := by
    rcases getElem?_push hm with ⟨-, hm⟩ | ⟨-, rfl⟩
    · obtain ⟨j, hj, hfade⟩ := h.sound k m hm hop
      exact ⟨j, hj, hfade.of_kept (prefix_push ..)⟩
    · exact absurd hop ha

/-- Two nodes more, which are a cross-fade. -/
theorem FadesFit.push_fade {v a : Node (Filter Rat)} (h : g.FadesFit)
    (hv : v.op = "xfade") (ha : a.op = "acrossfade")
    (hfade : ((g.push v).push a).CrossFades g.size) : ((g.push v).push a).FadesFit := by
  have hkept : g.nodes <+: ((g.push v).push a).nodes := (prefix_push ..).trans (prefix_push ..)
  have hsize : (g.push v).size = g.size + 1 := by simp [Graph.push, size]
  refine ⟨fun k m hm hop => ?_, fun k m hm hop => ?_⟩
  · rcases getElem?_push hm with ⟨-, hm⟩ | ⟨-, rfl⟩
    · rcases getElem?_push hm with ⟨-, hm⟩ | ⟨rfl, -⟩
      · exact (h.picture k m hm hop).of_kept hkept
      · exact hfade
    · simp [ha] at hop
  · rcases getElem?_push hm with ⟨-, hm⟩ | ⟨rfl, -⟩
    · rcases getElem?_push hm with ⟨-, hm⟩ | ⟨-, rfl⟩
      · obtain ⟨j, hj, hfade⟩ := h.sound k m hm hop
        exact ⟨j, hj, hfade.of_kept hkept⟩
      · simp [hv] at hop
    · exact ⟨g.size, hsize, hfade⟩

/-! ## Growing -/

/-- The nodes of one operation, each as its stream and its index. -/
def placesOf (g : Graph (Filter Rat)) (op : String) : List (Stream × Int) :=
  (g.nodes.zipIdx.filter (·.1.op == op)).map fun p => (p.1.stream, (p.2 : Int))

theorem placesOf_push {op : String} (h : n.op = op) :
    (g.push n).placesOf op = g.placesOf op ++ [(n.stream, (g.size : Int))] := by
  simp [placesOf, push, size, List.zipIdx_append, h]

theorem placesOf_push_of_ne {op : String} (h : n.op ≠ op) :
    (g.push n).placesOf op = g.placesOf op := by
  simp [placesOf, push, List.zipIdx_append, h]

/-- A graph with more nodes than another one, none of which assembles, and with cross-fades
that fit if those of the other one do. -/
structure Grows (g g' : Graph (Filter Rat)) : Prop where
  kept : g.nodes <+: g'.nodes
  fits : g.FadesFit → g'.FadesFit
  assembled : g'.placesOf "assemble" = g.placesOf "assemble"

theorem Grows.refl (g : Graph (Filter Rat)) : g.Grows g := ⟨List.prefix_rfl, id, rfl⟩

theorem Grows.trans {g'' : Graph (Filter Rat)} (h : g.Grows g') (h' : g'.Grows g'') :
    g.Grows g'' :=
  ⟨h.kept.trans h'.kept, h'.fits ∘ h.fits, h'.assembled.trans h.assembled⟩

/-- A node more that neither fades nor assembles. -/
theorem grows_push (h : n.op ∉ ["xfade", "acrossfade", "assemble"]) : g.Grows (g.push n) := by
  simp only [List.mem_cons, List.not_mem_nil, or_false, not_or] at h
  exact ⟨prefix_push .., fun hg => hg.push h.1 h.2.1, placesOf_push_of_ne h.2.2⟩

end Graph

end Montage
