/-
The bonds of a timeline under the steps that edits are made of, in any arithmetic.

What a step makes of the bonds is said up to their order: a clip that is moved,
changed or pushed along keeps its bond (`Timeline.bonds_perm_of_exchanged`), one
that is put on a track adds its bond to the others (`Timeline.bonds_place`), and
one that is taken off takes its bond away (`Timeline.bonds_take`).
-/
import Montage.Proofs.Edit.Matched
import Montage.Proofs.Edit.Steps
import Montage.Proofs.Spacing

namespace Montage

variable {α : Type}

def Clip.bond (c : Clip α) : Bond := ⟨c.id, c.kind, c.detachedAudio, c.linkedVideo⟩

theorem Clip.Kept.bond {c d : Clip α} (h : c.Kept d) : d.bond = c.bond := by
  simp only [Clip.bond, h.id, h.kind, h.detachedAudio, h.linkedVideo]

/-- The bonds of all clips. -/
def Timeline.bonds (t : Timeline α) : List Bond := t.allClips.map Clip.bond

namespace Timeline

variable {t u : Timeline α} {track new : Track α} {clip : Clip α} {ids rest : Ids}

theorem mem_bonds (h : clip ∈ t.allClips) : clip.bond ∈ t.bonds := List.mem_map_of_mem h

theorem bonds_ids (t : Timeline α) : t.bonds.map (·.id) = t.allClips.map (·.id) := by
  simp [bonds, Clip.bond]

theorem bonds_of_tracks_eq (h : u.tracks = t.tracks) : u.bonds = t.bonds := by
  simp [bonds, allClips, h]

@[simp] theorem bonds_renewed (t : Timeline α) (b : Bool) : (t.renewed b).bonds = t.bonds :=
  bonds_of_tracks_eq (by simp)

theorem bonds_mapClips {f : Clip α → Clip α} {g : Bond → Bond}
    (h : ∀ c, (f c).bond = g c.bond) : (t.mapClips f).bonds = t.bonds.map g := by
  simp [bonds, List.map_map, Function.comp_def, h]

theorem bonds_unlink (removed : List String) (b : Bool) :
    (t.mapClips (Clip.unlink removed b)).bonds = t.bonds.map (Bond.unlink removed) :=
  bonds_mapClips fun _ => rfl

theorem bonds_dropRecords (t : Timeline α) (removed : List String) :
    (t.dropRecords removed).bonds = t.bonds.map (Bond.unlink removed) := by
  unfold dropRecords
  split
  · next hnil =>
    have hself : ∀ b ∈ t.bonds, b.unlink removed = id b := fun b _ => by
      obtain rfl := List.isEmpty_iff.1 hnil
      cases hd : b.detached <;> cases hl : b.linked <;> cases b <;> simp_all [Bond.unlink, namesOne]
    rw [List.map_congr_left hself, List.map_id]
  · exact bonds_unlink removed true

theorem bonds_clear (t : Timeline α) (p : String → Bool) :
    (t.mapClips fun c =>
      if p c.id then { c with detachedAudio := none, linkedVideo := none } else c).bonds =
      t.bonds.map fun b => if p b.id then b.clear else b :=
  bonds_mapClips fun c => by cases hp : p c.id <;> simp [Clip.bond, Bond.clear, hp]

/-! ## The bonds of one track -/

theorem bonds_rest (hn : (t.tracks.map (·.id)).Nodup) (ht : track ∈ t.tracks) :
    ∃ rest, t.bonds.Perm (track.clips.map Clip.bond ++ rest) ∧
      ∀ new : Track α, new.id = track.id →
        (t.replaceTrack new).bonds.Perm (new.clips.map Clip.bond ++ rest) := by
  obtain ⟨rest, hrest, hnew⟩ := exists_rest hn ht
  refine ⟨rest.map Clip.bond, ?_, fun new hid => ?_⟩
  · rw [← List.map_append]
    exact hrest.map _
  · rw [← List.map_append]
    exact (hnew new hid).map _

theorem bonds_perm_of_replaceTrack (hn : (t.tracks.map (·.id)).Nodup) (ht : track ∈ t.tracks)
    (hid : new.id = track.id)
    (hp : (new.clips.map Clip.bond).Perm (track.clips.map Clip.bond)) :
    (t.replaceTrack new).bonds.Perm t.bonds := by
  obtain ⟨rest, hrest, hnew⟩ := bonds_rest hn ht
  exact (hnew new hid).trans ((hp.append_right rest).trans hrest.symm)

/-- A clip is taken off its track. -/
theorem bonds_take (hn : (t.tracks.map (·.id)).Nodup) (hc : (t.allClips.map (·.id)).Nodup)
    (ht : track ∈ t.tracks) (hclip : clip ∈ track.clips) :
    t.bonds.Perm (clip.bond ::
      (t.replaceTrack { track with clips := track.clips.filter (·.id != clip.id) }).bonds) := by
  obtain ⟨rest, hrest, hnew⟩ := bonds_rest hn ht
  obtain ⟨pre, post, hsplit, hne⟩ := exists_split_of_mem (nodup_clipIds hc ht) hclip
  have hfilter : track.clips.filter (·.id != clip.id) = pre ++ post := by
    rw [hsplit]
    exact filter_ne_of_split hne
  have hleft := hnew { track with clips := pre ++ post } rfl
  rw [hfilter]
  refine hrest.trans (List.Perm.trans ?_ (hleft.symm.cons _))
  simp [hsplit]

/-- A track is taken away. -/
theorem bonds_removeTrack (hn : (t.tracks.map (·.id)).Nodup) (ht : track ∈ t.tracks)
    (hu : u.tracks = t.tracks.filter (·.id != track.id)) :
    t.bonds.Perm (track.clips.map Clip.bond ++ u.bonds) := by
  obtain ⟨pre, post, hsplit, hne⟩ := exists_split_of_mem hn ht
  rw [hsplit, filter_ne_of_split hne] at hu
  simp only [bonds, allClips, hu, hsplit, List.flatMap_append, List.flatMap_cons, List.map_append]
  exact List.perm_append_comm_assoc _ _ _

variable [Scalar α]

theorem bonds_append {blank : Track α} {id : String} {kind : TrackKind} (hb : blank.Blank id kind)
    (hu : u.tracks = t.tracks ++ [blank]) : u.bonds = t.bonds := by
  simp [bonds, allClips, hu, hb.clips]

/-- Settling keeps all bonds. -/
theorem bonds_settle (track : Track α) (clips : List (Clip α)) :
    ((track.settle clips).clips.map Clip.bond).Perm (clips.map Clip.bond) :=
  resolve_map_perm (fun _ _ => rfl) clips

theorem bonds_perm_of_exchanged (hn : (t.tracks.map (·.id)).Nodup)
    (hc : (t.allClips.map (·.id)).Nodup) (h : t.Exchanged u) : u.bonds.Perm t.bonds := by
  have hsame : ∀ {track : Track α} {old new : Clip α}, track ∈ t.tracks → old ∈ track.clips →
      new.bond = old.bond →
      (replaceClip track.clips new).map Clip.bond = track.clips.map Clip.bond :=
    fun ht ho hbond => map_replaceClip (nodup_clipIds hc ht) ho (congrArg Bond.id hbond) hbond
  cases h with
  | changed b ht ho hedit hnew hclips =>
    have hbond := (Clip.kept_of_change hedit hnew).bond
    rw [bonds_renewed]
    refine bonds_perm_of_replaceTrack hn ht rfl ?_
    rw [← hsame ht ho hbond]
    rcases hclips with rfl | ⟨-, rfl⟩
    · exact bonds_settle _ _
    · exact .refl _
  | stretched time b ht ho =>
    rw [bonds_renewed]
    exact bonds_perm_of_replaceTrack hn ht rfl ((bonds_settle _ _).trans (.of_eq (hsame ht ho rfl)))

/-- A clip is put on a track. -/
theorem bonds_place (hn : (t.tracks.map (·.id)).Nodup) (ht : track ∈ t.tracks) (clip : Clip α) :
    (t.replaceTrack (track.settle (track.clips ++ [clip]))).bonds.Perm (clip.bond :: t.bonds) := by
  obtain ⟨rest, hrest, hnew⟩ := bonds_rest hn ht
  have hplaced := hnew (track.settle (track.clips ++ [clip])) rfl
  have hsettled := (bonds_settle track (track.clips ++ [clip])).append_right rest
  refine hplaced.trans (hsettled.trans (List.Perm.trans ?_ (hrest.symm.cons _)))
  simp

/-- A clip is exchanged for two. -/
theorem bonds_cut (hn : (t.tracks.map (·.id)).Nodup) (hc : (t.allClips.map (·.id)).Nodup)
    (ht : track ∈ t.tracks) (hclip : clip ∈ track.clips) (head tail : Clip α) :
    ∃ rest, t.bonds.Perm (clip.bond :: rest) ∧
      (t.replaceTrack (track.settle (track.clips.flatMap fun c =>
        if c.id == clip.id then [head, tail] else [c]))).bonds.Perm
          (head.bond :: tail.bond :: rest) := by
  obtain ⟨rest, hrest, hnew⟩ := bonds_rest hn ht
  obtain ⟨pre, post, hsplit, hne⟩ := exists_split_of_mem (nodup_clipIds hc ht) hclip
  refine ⟨(pre ++ post).map Clip.bond ++ rest, ?_, ?_⟩
  · refine hrest.trans ?_
    simp [hsplit]
  · have hcut : track.clips.flatMap (fun c => if c.id == clip.id then [head, tail] else [c]) =
        pre ++ ([head, tail] ++ post) := by
      rw [hsplit]
      exact flatMap_at_of_split hne
    have hmiddle : (pre ++ ([head, tail] ++ post)).Perm (head :: tail :: (pre ++ post)) :=
      List.perm_append_comm_assoc pre [head, tail] post
    rw [hcut]
    refine (hnew (track.settle _) rfl).trans (((bonds_settle _ _).append_right rest).trans ?_)
    simpa using (hmiddle.map Clip.bond).append_right rest

/-- Reading a timeline back keeps the ids and the bonds of its tracks. -/
theorem bonds_of_read {ratio : Json α}
    (hr : Timeline.read (t.fields.put "aspect_ratio" ratio) = .valid u) :
    u.tracks.map (·.id) = t.tracks.map (·.id) ∧ u.bonds = t.bonds := by
  have hsame : t.tracks.map (fun x => (x.id, x.clips.map Clip.bond)) =
      u.tracks.map fun x => (x.id, x.clips.map Clip.bond) :=
    map_eq_of_forall₂ ((read_tracks hr).imp fun x y hxy => by
      obtain ⟨hid, -, hclips⟩ := Track.kept_of_read hxy
      rw [hid, map_eq_of_forall₂ (hclips.imp fun c d hkept => hkept.bond.symm)])
  have hbonds : ∀ v : Timeline α, v.bonds = ((v.tracks.map fun x => (x.id, x.clips.map Clip.bond)).map
      (·.2)).flatten := fun v => by
    simp [bonds, allClips, List.flatMap_def, Function.comp_def]
  have hids := congrArg (List.map Prod.fst) hsame
  rw [hbonds, hbonds t, hsame]
  exact ⟨by simpa [Function.comp_def] using hids.symm, rfl⟩

end Timeline

end Montage
