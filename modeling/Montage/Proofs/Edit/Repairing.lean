/-
Repairing the links of audio to video, in any arithmetic.

The clips have distinct ids, and may otherwise be linked in any way: to clips that are not there, to
clips that point elsewhere, or to themselves. A link is kept if a clip points back among the clips as
they were. The link by which it does is kept for the same reason, so that of a pair both links are
left or none is, and one repair is enough (`repairLinks_keeps_pairs`).
-/
import Mathlib
import Montage.Proofs.Edit.Parts

namespace Montage.Timeline

variable {α : Type} {t : Timeline α} {clips : List (Clip α)} {there back : Clip α → Option String}
  {owner id : String}

/-- Among some clips the one with an id points back to its owner. -/
def PointsBack (clips : List (Clip α)) (back : Clip α → Option String) (owner id : String) : Prop :=
  ∃ other ∈ clips, other.id = id ∧ back other = some owner

/-- What is left of a clip among others: the links to those that point back, and all that is no link. -/
structure Repaired (clips : List (Clip α)) (c d : Clip α) : Prop where
  detachedAudio : ∀ id, d.detachedAudio = some id ↔
    c.detachedAudio = some id ∧ PointsBack clips (·.linkedVideo) c.id id
  linkedVideo : ∀ id, d.linkedVideo = some id ↔
    c.linkedVideo = some id ∧ PointsBack clips (·.detachedAudio) c.id id
  frame : d = { c with detachedAudio := d.detachedAudio, linkedVideo := d.linkedVideo }

/-- Every link leads to a clip that points back. -/
structure Mutual (t : Timeline α) : Prop where
  forth : ∀ c ∈ t.allClips, ∀ id, c.detachedAudio = some id →
    PointsBack t.allClips (·.linkedVideo) c.id id
  back : ∀ c ∈ t.allClips, ∀ id, c.linkedVideo = some id →
    PointsBack t.allClips (·.detachedAudio) c.id id

/-- A clip that points back to a link still does when the links the other way are kept that are
pointed back to: this very link is one. -/
theorem PointsBack.map {f : Clip α → Clip α} {c : Clip α} (hid : ∀ d ∈ clips, (f d).id = d.id)
    (hback : ∀ d ∈ clips, ∀ id, back d = some id → PointsBack clips there d.id id →
      back (f d) = some id)
    (hc : c ∈ clips) (hlink : there c = some id) (h : PointsBack clips back c.id id) :
    PointsBack (clips.map f) back (f c).id id := by
  obtain ⟨other, hother, rfl, hpoints⟩ := h
  refine ⟨f other, List.mem_map_of_mem hother, hid other hother, ?_⟩
  rw [hid c hc]
  exact hback other hother c.id hpoints ⟨c, hc, rfl, hlink⟩

theorem Mutual.of_repaired {f : Clip α → Clip α}
    (h : ∀ c ∈ t.allClips, Repaired t.allClips c (f c)) : (t.mapClips f).Mutual := by
  have hid : ∀ c ∈ t.allClips, (f c).id = c.id := fun c hc => by rw [(h c hc).frame]
  constructor <;> rw [allClips_mapClips, List.forall_mem_map] <;> intro c hc id hlink
  · obtain ⟨hlink, hpoints⟩ := ((h c hc).detachedAudio id).1 hlink
    exact hpoints.map hid (fun d hd i hi hpoints => ((h d hd).linkedVideo i).2 ⟨hi, hpoints⟩) hc hlink
  · obtain ⟨hlink, hpoints⟩ := ((h c hc).linkedVideo id).1 hlink
    exact hpoints.map hid (fun d hd i hi hpoints => ((h d hd).detachedAudio i).2 ⟨hi, hpoints⟩) hc hlink

/-! ## Stale links -/

theorem lastClip?_eq_some_iff (hids : (clips.map (·.id)).Nodup) {c : Clip α} :
    lastClip? clips id = some c ↔ c ∈ clips ∧ c.id = id := by
  constructor
  · intro h
    exact ⟨List.mem_reverse.1 (List.mem_of_find?_eq_some h), by simpa using List.find?_some h⟩
  · rintro ⟨hc, rfl⟩
    refine find?_key_eq_some ?_ (List.mem_reverse.2 hc) rfl
    rwa [List.map_reverse, List.nodup_reverse]

variable [Scalar α]

/-- With distinct ids, a link is stale if it holds something and no clip points back. -/
theorem isStale_eq_true_iff (hids : (clips.map (·.id)).Nodup) :
    isStale clips back owner (some id) = true ↔ id ≠ "" ∧ ¬PointsBack clips back owner id := by
  have hvoid : Label.isVoid α id = false ↔ id ≠ "" := by
    simp [Label.isVoid, Label.data, Json.isVoid]
  rw [isStale, Bool.and_eq_true, Bool.not_eq_true', hvoid]
  refine and_congr_right fun _ => ?_
  cases hfind : lastClip? clips id with
  | none =>
    refine iff_of_true rfl ?_
    rintro ⟨other, hother, hid, -⟩
    simp [(lastClip?_eq_some_iff hids).2 ⟨hother, hid⟩] at hfind
  | some other =>
    obtain ⟨hother, hid⟩ := (lastClip?_eq_some_iff hids).1 hfind
    rw [bne_iff_ne, ne_eq, not_iff_not]
    constructor
    · exact fun hback => ⟨other, hother, hid, hback⟩
    · rintro ⟨c, hc, hid, hback⟩
      rwa [Option.some.inj (hfind.symm.trans ((lastClip?_eq_some_iff hids).2 ⟨hc, hid⟩))]

/-- A link to a clip that points back is not stale. -/
theorem isStale_eq_false (hids : (clips.map (·.id)).Nodup) {link : Option String}
    (h : ∀ id, link = some id → PointsBack clips back owner id) :
    isStale clips back owner link = false := by
  cases link with
  | none => rfl
  | some id =>
    rw [Bool.eq_false_iff, ne_eq, isStale_eq_true_iff hids]
    exact fun hstale => hstale.2 (h id rfl)

/-- What is left of a link that holds something. -/
theorem link_kept_iff (hids : (clips.map (·.id)).Nodup) {link : Option String}
    (hlink : link ≠ some "") (id : String) :
    (if isStale clips back owner link then none else link) = some id ↔
      link = some id ∧ PointsBack clips back owner id := by
  split
  · next hstale =>
    refine iff_of_false (by simp) ?_
    rintro ⟨rfl, hpoints⟩
    exact ((isStale_eq_true_iff hids).1 hstale).2 hpoints
  · next hstale =>
    refine (and_iff_left_of_imp ?_).symm
    rintro rfl
    rw [isStale_eq_true_iff hids, not_and_not_right] at hstale
    exact hstale fun he => hlink (congrArg some he)

/-- There is nothing to repair where links are mutual. -/
theorem Mutual.repairLinks_eq (hids : (t.allClips.map (·.id)).Nodup) (h : t.Mutual) :
    t.repairLinks = t := by
  refine mapClips_eq_self fun c hc => ?_
  have hd : isStale t.allClips (·.linkedVideo) c.id c.detachedAudio = false :=
    isStale_eq_false hids (h.forth c hc)
  have hl : isStale t.allClips (·.detachedAudio) c.id c.linkedVideo = false :=
    isStale_eq_false hids (h.back c hc)
  simp [hd, hl]

/-- **The links that are kept** are those to clips that point back; nothing else of a clip changes.
After that every link is mutual, and to repair again changes nothing. -/
theorem repairLinks_keeps_pairs (hids : (t.allClips.map (·.id)).Nodup)
    (hlinks : ∀ c ∈ t.allClips, c.detachedAudio ≠ some "" ∧ c.linkedVideo ≠ some "") :
    (∃ f, t.repairLinks = t.mapClips f ∧ ∀ c ∈ t.allClips, Repaired t.allClips c (f c)) ∧
      t.repairLinks.Mutual ∧ t.repairLinks.repairLinks = t.repairLinks := by
  obtain ⟨f, hf, hrepaired⟩ : ∃ f, t.repairLinks = t.mapClips f ∧
      ∀ c ∈ t.allClips, Repaired t.allClips c (f c) :=
    ⟨_, rfl, fun c hc => ⟨link_kept_iff hids (hlinks c hc).1, link_kept_iff hids (hlinks c hc).2, rfl⟩⟩
  have hmutual : t.repairLinks.Mutual := hf ▸ .of_repaired hrepaired
  refine ⟨⟨f, hf, hrepaired⟩, hmutual, hmutual.repairLinks_eq ?_⟩
  have hid : ∀ c ∈ t.allClips, (f c).id = c.id := fun c hc => by rw [(hrepaired c hc).frame]
  rw [hf, allClips_mapClips, List.map_map]
  exact List.map_congr_left hid ▸ hids

/-- A clip, all of which but its links is of no matter. -/
def wired (id : String) (detachedAudio linkedVideo : Option String) : Clip Rat where
  id := id
  mediaId := "m"
  trackId := "v"
  kind := .video
  name := "take"
  start := 0
  rawDuration := 4
  trimIn := 0
  trimOut := 0
  crop := none
  transform := none
  audioMuted := false
  detachedAudio := detachedAudio
  linkedVideo := linkedVideo

/-- A pair, links to a clip that is not there and to one that points elsewhere, links that lead around
through four clips, and clips that are linked to themselves one way and both ways. -/
def tangled : Timeline Rat :=
  let clips := [wired "a" (some "b") none, wired "b" none (some "a"), wired "c" (some "gone") none,
    wired "d" (some "b") none, wired "e" (some "f") none, wired "f" none (some "g"),
    wired "g" (some "h") none, wired "h" none (some "e"), wired "i" (some "i") none,
    wired "j" (some "j") (some "j")]
  { empty "cut" .wide with tracks := [⟨"v", "Video 1", .video, clips, false, false, 1⟩] }

theorem tangled_keeps_pairs :
    (tangled.allClips.map (·.id)).Nodup ∧
      (∀ c ∈ tangled.allClips, c.detachedAudio ≠ some "" ∧ c.linkedVideo ≠ some "") ∧
      (tangled.repairLinks.allClips.filter fun c => (c.detachedAudio <|> c.linkedVideo).isSome) =
        [wired "a" (some "b") none, wired "b" none (some "a"), wired "j" (some "j") (some "j")] ∧
      (∃ f, tangled.repairLinks = tangled.mapClips f ∧
        ∀ c ∈ tangled.allClips, Repaired tangled.allClips c (f c)) ∧
      tangled.repairLinks.Mutual ∧ tangled.repairLinks.repairLinks = tangled.repairLinks := by
  have hids : (tangled.allClips.map (·.id)).Nodup := by decide
  have hlinks : ∀ c ∈ tangled.allClips, c.detachedAudio ≠ some "" ∧ c.linkedVideo ≠ some "" := by
    decide
  exact ⟨hids, hlinks, by cbv, repairLinks_keeps_pairs hids hlinks⟩

end Montage.Timeline
