/-
The parts of a timeline under the steps that edits are made of.

With distinct ids to replace, remove or cut a thing changes one place of its list
alone. `replaceTrack` therefore exchanges the clips of one track for others and
leaves the rest (`Timeline.exists_rest`).
-/
import Montage.Edit.Command
import Montage.Proofs.Keyed

namespace Montage

deriving instance ReflBEq, LawfulBEq for MediaKind, TrackKind

variable {α : Type}

/-- A clip put in the place of one with its id, as seen by what does not tell the two
apart. -/
theorem map_replaceClip {γ : Type} {f : Clip α → γ} {clips : List (Clip α)} {old new : Clip α}
    (hn : (clips.map (·.id)).Nodup) (ho : old ∈ clips) (hid : new.id = old.id)
    (hf : f new = f old) : (replaceClip clips new).map f = clips.map f := by
  unfold replaceClip
  rw [List.map_map]
  refine List.map_congr_left fun c hc => ?_
  by_cases h : c.id = new.id
  · have : c = old := List.inj_on_of_nodup_map hn hc ho (h.trans hid)
    simp [this, hid, hf]
  · simp [h]

theorem replaceClip_self {clips : List (Clip α)} {c : Clip α} (hn : (clips.map (·.id)).Nodup)
    (hc : c ∈ clips) : replaceClip clips c = clips := by
  simpa using map_replaceClip (f := id) hn hc rfl rfl

/-- A clip that is exchanged changes one place of the list. -/
theorem replaceClip_of_split {pre post : List (Clip α)} {old new : Clip α}
    (hne : ∀ c ∈ pre ++ post, c.id ≠ old.id) (hid : new.id = old.id) :
    replaceClip (pre ++ old :: post) new = pre ++ new :: post := by
  have hmap := map_at_of_split (f := fun _ => new) (g := id) hne
  simpa [replaceClip, hid] using hmap

theorem mem_replaceClip {clips : List (Clip α)} {c new : Clip α} (h : c ∈ replaceClip clips new) :
    c = new ∨ c ∈ clips := by
  simp only [replaceClip, List.mem_map] at h
  obtain ⟨d, hd, rfl⟩ := h
  split
  · exact .inl rfl
  · exact .inr hd

namespace Timeline

variable {t : Timeline α} {track old new : Track α} {clip : Clip α} {id : String}

/-! ## Looking things up -/

theorem mem_of_findTrack (h : t.findTrack id = some track) : track ∈ t.tracks ∧ track.id = id :=
  ⟨List.mem_of_find?_eq_some h, by simpa using List.find?_some h⟩

theorem mem_of_findClip (h : t.findClip id = some clip) : clip ∈ t.allClips ∧ clip.id = id :=
  ⟨List.mem_of_find?_eq_some h, by simpa using List.find?_some h⟩

theorem editable?_eq_some (h : t.editable? id = some (track, clip)) :
    track ∈ t.tracks ∧ track.locked = false ∧ clip ∈ track.clips ∧ clip.id = id := by
  unfold editable? at h
  split at h
  · next track' htrack =>
    split at h
    · cases h
    · next hlocked =>
      simp only [Option.map_eq_some_iff, Prod.mk.injEq] at h
      obtain ⟨c, hc, rfl, rfl⟩ := h
      exact ⟨List.mem_of_find?_eq_some htrack, by simpa using hlocked, List.mem_of_find?_eq_some hc,
        by simpa using List.find?_some hc⟩
  · cases h

theorem receiver?_eq_some {kind : MediaKind} (h : t.receiver? id kind = some track) :
    track ∈ t.tracks ∧ track.id = id ∧ track.locked = false ∧ track.kind.accepts kind = true := by
  unfold receiver? at h
  split at h
  · next track' htrack =>
    split at h
    · cases h
    · next hok =>
      cases h
      obtain ⟨hmem, hid⟩ := mem_of_findTrack htrack
      simp only [Bool.or_eq_true, Bool.not_eq_true', not_or, Bool.not_eq_true,
        Bool.not_eq_false] at hok
      exact ⟨hmem, hid, hok⟩
  · cases h

theorem mem_allClips {c : Clip α} (ht : track ∈ t.tracks) (hc : c ∈ track.clips) : c ∈ t.allClips :=
  List.mem_flatMap.2 ⟨track, ht, hc⟩

theorem nodup_clipIds (hn : (t.allClips.map (·.id)).Nodup) (ht : track ∈ t.tracks) :
    (track.clips.map (·.id)).Nodup := by
  rw [allClips, List.map_flatMap] at hn
  exact (List.nodup_flatMap.1 hn).1 track ht

/-! ## Tracks replaced and clips mapped -/

theorem mem_replaceTrack (h : track ∈ (t.replaceTrack new).tracks) : track = new ∨ track ∈ t.tracks := by
  simp only [replaceTrack, List.mem_map] at h
  obtain ⟨x, hx, rfl⟩ := h
  split
  · exact .inl rfl
  · exact .inr hx

theorem mem_tracks_replaceTrack (ht : track ∈ t.tracks) (hid : new.id = track.id) :
    new ∈ (t.replaceTrack new).tracks :=
  List.mem_map.2 ⟨track, ht, if_pos (by simp [hid])⟩

/-- The clips of a track that is put in the place of another are there. -/
theorem mem_allClips_replaceTrack (ht : track ∈ t.tracks) (hid : new.id = track.id)
    (hc : clip ∈ new.clips) : clip ∈ (t.replaceTrack new).allClips :=
  mem_allClips (mem_tracks_replaceTrack ht hid) hc

theorem replaceTrack_self (hn : (t.tracks.map (·.id)).Nodup) (ht : track ∈ t.tracks) :
    t.replaceTrack track = t := by
  have htracks : t.tracks.map (fun old => if old.id == track.id then track else old) = t.tracks := by
    refine (List.map_congr_left fun old hold => ?_).trans (List.map_id _)
    by_cases he : old.id = track.id
    · simp [List.inj_on_of_nodup_map hn hold ht he]
    · simp [he]
  rw [replaceTrack, htracks]

@[simp] theorem tracks_renewed (t : Timeline α) (b : Bool) : (t.renewed b).tracks = t.tracks := by
  cases b <;> rfl

@[simp] theorem trackIds_replaceTrack (t : Timeline α) (new : Track α) :
    (t.replaceTrack new).tracks.map (·.id) = t.tracks.map (·.id) := by
  unfold replaceTrack
  rw [List.map_map]
  refine List.map_congr_left fun x _ => ?_
  by_cases h : x.id = new.id <;> simp [h]

@[simp] theorem trackIds_mapClips (t : Timeline α) (f : Clip α → Clip α) :
    (t.mapClips f).tracks.map (·.id) = t.tracks.map (·.id) := by
  simp [mapClips]

@[simp] theorem allClips_mapClips (t : Timeline α) (f : Clip α → Clip α) :
    (t.mapClips f).allClips = t.allClips.map f := by
  simp [allClips, mapClips, List.flatMap_map, List.map_flatMap]

@[simp] theorem trackIds_dropRecords (t : Timeline α) (removed : List String) :
    (t.dropRecords removed).tracks.map (·.id) = t.tracks.map (·.id) := by
  unfold dropRecords
  split
  · rfl
  · exact trackIds_mapClips _ _

theorem mapClips_eq_self {f : Clip α → Clip α} (h : ∀ c ∈ t.allClips, f c = c) :
    t.mapClips f = t := by
  have htracks : t.tracks.map (fun x => { x with clips := x.clips.map f }) = t.tracks := by
    refine (List.map_congr_left fun x hx => ?_).trans (List.map_id _)
    have : x.clips.map f = x.clips :=
      (List.map_congr_left fun c hc => h c (mem_allClips hx hc)).trans (List.map_id _)
    simp [this]
  unfold mapClips
  rw [htracks]

/-- A track of distinct ids stands at one place, where another of its id can be put. -/
theorem exists_split (hn : (t.tracks.map (·.id)).Nodup) (ho : old ∈ t.tracks) :
    ∃ pre post, t.tracks = pre ++ old :: post ∧
      (∀ x ∈ pre ++ post, x.id ≠ old.id) ∧
      ∀ new : Track α, new.id = old.id → (t.replaceTrack new).tracks = pre ++ new :: post := by
  obtain ⟨pre, post, hsplit, hne⟩ := exists_split_of_mem hn ho
  refine ⟨pre, post, hsplit, hne, fun new hid => ?_⟩
  have := map_at_of_split (f := fun _ => new) (g := id) hne
  simp only [replaceTrack, hid, hsplit]
  simpa using this

/-- What stands on the other tracks when the clips of one are exchanged for others. -/
theorem exists_rest (hn : (t.tracks.map (·.id)).Nodup) (ho : old ∈ t.tracks) :
    ∃ rest, t.allClips.Perm (old.clips ++ rest) ∧
      ∀ new : Track α, new.id = old.id →
        (t.replaceTrack new).allClips.Perm (new.clips ++ rest) := by
  obtain ⟨pre, post, hsplit, -, hnew⟩ := exists_split hn ho
  refine ⟨pre.flatMap (·.clips) ++ post.flatMap (·.clips), ?_, fun new hid => ?_⟩
  · simpa [allClips, hsplit] using List.perm_append_comm_assoc _ _ _
  · simpa [allClips, hnew new hid] using List.perm_append_comm_assoc _ _ _

end Timeline

end Montage
