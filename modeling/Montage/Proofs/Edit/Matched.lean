/-
The links of audio to video form a matching, and every edit keeps them so.

What edits do to links is seen best on the bonds of all clips, in any order
(`Matched.perm`): new clips come without links (`Matched.add`), clips that go
take the links to them along (`Matched.drop`), a pair is let go of together
(`Matched.clear`), and two free clips are linked both ways (`Matched.link`).
-/
import Mathlib.Data.List.Nodup
import Montage.Edit.Basic

namespace Montage

/-! ## Bonds -/

/-- A clip as the links of audio to video see it. -/
structure Bond where
  id : String
  kind : MediaKind
  detached : Option String
  linked : Option String

namespace Bond

/-- The bond of a clip without links. -/
def free (id : String) (kind : MediaKind) : Bond := ⟨id, kind, none, none⟩

def clear (b : Bond) : Bond := { b with detached := none, linked := none }

/-- The bond without links to removed clips. -/
def unlink (removed : List String) (b : Bond) : Bond :=
  { b with
    detached := if namesOne removed b.detached then none else b.detached
    linked := if namesOne removed b.linked then none else b.linked }

/-- The bond as it is after a video and an audio clip are linked. -/
def link (videoId audioId : String) (b : Bond) : Bond :=
  if b.id == videoId then { b with detached := some audioId }
  else if b.id == audioId then { b with linked := some videoId }
  else b

end Bond

/-- Links of one direction, which clips of a kind have: each leads to a clip that links
back in the other. -/
def Answered (kind : MediaKind) (there back : Bond → Option String) (bs : List Bond) : Prop :=
  ∀ b ∈ bs, ∀ i, there b = some i → b.kind = kind ∧ ∃ c ∈ bs, c.id = i ∧ back c = some b.id

/-- Links that all are answered, between clips of distinct ids. -/
structure Matched (bs : List Bond) : Prop where
  ids : (bs.map (·.id)).Nodup
  named : ∀ b ∈ bs, b.id ≠ ""
  forth : Answered .video (·.detached) (·.linked) bs
  back : Answered .audio (·.linked) (·.detached) bs

/-! ## One direction -/

namespace Answered

variable {kind : MediaKind} {there back : Bond → Option String} {bs cs gone rest : List Bond}
  {b c : Bond} {f : Bond → Bond}

theorem perm (h : Answered kind there back bs) (hp : cs.Perm bs) : Answered kind there back cs :=
  fun b hb i hi => by simpa only [hp.mem_iff] using h b (hp.mem_iff.1 hb) i hi

theorem add (h : Answered kind there back bs) (hb : there b = none) :
    Answered kind there back (b :: bs) := by
  intro c hc i hi
  rcases List.mem_cons.1 hc with rfl | hc
  · rw [hb] at hi
    cases hi
  · obtain ⟨hkind, d, hd, hdi, hdc⟩ := h c hc i hi
    exact ⟨hkind, d, List.mem_cons_of_mem _ hd, hdi, hdc⟩

/-- Some links are let go of, with those that answer them. -/
theorem clear (h : Answered kind there back bs) {p : Bond → Bool} (hf : ∀ b : Bond, there b.clear = none)
    (hp : ∀ c ∈ bs, ∀ b ∈ bs, p c = true → back c = some b.id → p b = true) :
    Answered kind there back (bs.map fun b => if p b then b.clear else b) := by
  intro x hx i hi
  obtain ⟨b, hb, rfl⟩ := List.mem_map.1 hx
  cases hpb : p b <;> simp only [hpb, Bool.false_eq_true, if_false, if_true] at hi ⊢
  · obtain ⟨hkind, c, hc, hci, hcb⟩ := h b hb i hi
    have hpc : p c ≠ true := fun hpc => by simp [hp c hc b hb hpc hcb] at hpb
    exact ⟨hkind, c, List.mem_map.2 ⟨c, hc, if_neg hpc⟩, hci, hcb⟩
  · rw [hf] at hi
    cases hi

/-- One clip is linked to another, of which neither is linked to. -/
theorem join (h : Answered kind there back bs) (hid : ∀ b, (f b).id = b.id) (hb : b ∈ bs) (hc : c ∈ bs)
    (hkeep : ∀ x ∈ bs, x ≠ b → x ≠ c → f x = x) (hkind : (f b).kind = kind)
    (hforth : there (f b) = some c.id) (hback : back (f c) = some b.id) (hother : there (f c) = none)
    (hbfree : back b = none) (hcfree : back c = none) : Answered kind there back (bs.map f) := by
  intro y hy i hi
  obtain ⟨x, hx, rfl⟩ := List.mem_map.1 hy
  by_cases hxb : x = b
  · subst hxb
    rw [hforth, Option.some.injEq] at hi
    exact ⟨hkind, f c, List.mem_map_of_mem hc, (hid c).trans hi, by rw [hback, hid]⟩
  by_cases hxc : x = c
  · subst hxc
    rw [hother] at hi
    cases hi
  rw [hkeep x hx hxb hxc] at hi ⊢
  obtain ⟨hxkind, z, hz, hzi, hzx⟩ := h x hx i hi
  refine ⟨hxkind, z, List.mem_map.2 ⟨z, hz, hkeep z hz ?_ ?_⟩, hzi, hzx⟩ <;> rintro rfl
  · rw [hbfree] at hzx
    cases hzx
  · rw [hcfree] at hzx
    cases hzx

/-- Clips go, and the links that led to them. -/
theorem drop (h : Answered kind there back (gone ++ rest)) {removed : List String}
    (hthere : ∀ b, there (b.unlink removed) = if namesOne removed (there b) then none else there b)
    (hback : ∀ b, back (b.unlink removed) = if namesOne removed (back b) then none else back b)
    (hgone : ∀ b ∈ gone, b.id ∈ removed) (hrest : ∀ b ∈ rest, b.id ∉ removed) :
    Answered kind there back (rest.map (Bond.unlink removed)) := by
  intro x hx i hi
  obtain ⟨b, hb, rfl⟩ := List.mem_map.1 hx
  rw [hthere] at hi
  split at hi
  · cases hi
  next hkept =>
  obtain ⟨hkind, c, hc, hci, hcb⟩ := h b (List.mem_append_right _ hb) i hi
  have hcrest : c ∈ rest := by
    refine (List.mem_append.1 hc).resolve_left fun hcg => hkept ?_
    rw [hi, ← hci]
    exact List.contains_iff_mem.2 (hgone c hcg)
  refine ⟨hkind, c.unlink removed, List.mem_map_of_mem hcrest, hci, ?_⟩
  rw [hback, hcb, if_neg]
  · rfl
  · exact fun hnamed => hrest b hb (List.contains_iff_mem.1 hnamed)

end Answered

/-! ## Both directions -/

namespace Matched

variable {bs cs gone rest : List Bond} {b c v a : Bond} {id : String}

theorem nil : Matched [] := ⟨by simp, by simp, by simp [Answered], by simp [Answered]⟩

theorem perm (h : Matched bs) (hp : cs.Perm bs) : Matched cs where
  ids := (hp.map _).nodup_iff.2 h.ids
  named := fun b hb => h.named b (hp.mem_iff.1 hb)
  forth := h.forth.perm hp
  back := h.back.perm hp

theorem eq_of_id (h : Matched bs) (hb : b ∈ bs) (hc : c ∈ bs) (he : b.id = c.id) : b = c :=
  List.inj_on_of_nodup_map h.ids hb hc he

/-- A clip of a new id comes without links. -/
theorem add (h : Matched bs) {kind : MediaKind} (hne : id ≠ "") (hnew : id ∉ bs.map (·.id)) :
    Matched (Bond.free id kind :: bs) where
  ids := List.nodup_cons.2 ⟨hnew, h.ids⟩
  named := fun b hb => by
    rcases List.mem_cons.1 hb with rfl | hb
    · exact hne
    · exact h.named b hb
  forth := h.forth.add rfl
  back := h.back.add rfl

theorem ids_map (h : Matched bs) {f : Bond → Bond} (hid : ∀ b, (f b).id = b.id) :
    ((bs.map f).map (·.id)).Nodup ∧ ∀ b ∈ bs.map f, b.id ≠ "" := by
  constructor
  · rw [List.map_map]
    exact (List.map_congr_left fun b _ => hid b) ▸ h.ids
  · intro x hx
    obtain ⟨b, hb, rfl⟩ := List.mem_map.1 hx
    rw [hid]
    exact h.named b hb

theorem clear (h : Matched bs) {p : Bond → Bool}
    (hd : ∀ v ∈ bs, ∀ a ∈ bs, p v = true → v.detached = some a.id → p a = true)
    (hl : ∀ a ∈ bs, ∀ v ∈ bs, p a = true → a.linked = some v.id → p v = true) :
    Matched (bs.map fun b => if p b then b.clear else b) := by
  obtain ⟨hids, hnamed⟩ := h.ids_map (f := fun b => if p b then b.clear else b)
    fun b => by split <;> rfl
  exact ⟨hids, hnamed, h.forth.clear (fun _ => rfl) hl, h.back.clear (fun _ => rfl) hd⟩

theorem link (h : Matched bs) (hv : v ∈ bs) (ha : a ∈ bs) (hvideo : v.kind = .video)
    (haudio : a.kind = .audio) (hvf : v.clear = v) (haf : a.clear = a) :
    Matched (bs.map (Bond.link v.id a.id)) := by
  have hne : a.id ≠ v.id := fun he => by
    rw [h.eq_of_id ha hv he, hvideo] at haudio
    cases haudio
  have hid : ∀ b, (Bond.link v.id a.id b).id = b.id := fun b => by
    unfold Bond.link
    split <;> [rfl; (split <;> rfl)]
  have hkeep : ∀ b ∈ bs, b ≠ v → b ≠ a → Bond.link v.id a.id b = b := fun b hb hbv hba => by
    simp [Bond.link, mt (h.eq_of_id hb hv) hbv, mt (h.eq_of_id hb ha) hba]
  have hlv : Bond.link v.id a.id v = { v with detached := some a.id } := by simp [Bond.link]
  have hla : Bond.link v.id a.id a = { a with linked := some v.id } := by simp [Bond.link, hne]
  have hvd : v.detached = none := by rw [← hvf]; rfl
  have hvl : v.linked = none := by rw [← hvf]; rfl
  have had : a.detached = none := by rw [← haf]; rfl
  have hal : a.linked = none := by rw [← haf]; rfl
  obtain ⟨hids, hnamed⟩ := h.ids_map hid
  exact ⟨hids, hnamed,
    h.forth.join hid hv ha hkeep (by rw [hlv, hvideo]) (by rw [hlv]) (by rw [hla]) (by rw [hla, had])
      hvl hal,
    h.back.join hid ha hv (fun b hb hba hbv => hkeep b hb hbv hba) (by rw [hla, haudio]) (by rw [hla])
      (by rw [hlv]) (by rw [hlv, hvl]) had hvd⟩

theorem drop (h : Matched (gone ++ rest)) :
    Matched (rest.map (Bond.unlink (gone.map (·.id)))) := by
  have hids := h.ids
  rw [List.map_append, List.nodup_append'] at hids
  have hgone : ∀ b ∈ gone, b.id ∈ gone.map (·.id) := fun b hb => List.mem_map_of_mem hb
  have hrest : ∀ b ∈ rest, b.id ∉ gone.map (·.id) := fun b hb hbg =>
    hids.2.2 hbg (List.mem_map_of_mem hb)
  refine ⟨?_, ?_, h.forth.drop (fun _ => rfl) (fun _ => rfl) hgone hrest,
    h.back.drop (fun _ => rfl) (fun _ => rfl) hgone hrest⟩
  · rw [List.map_map]
    exact hids.2.1
  · intro x hx
    obtain ⟨b, hb, rfl⟩ := List.mem_map.1 hx
    exact h.named b (List.mem_append_right _ hb)

theorem drop_one (h : Matched (b :: rest)) : Matched (rest.map (Bond.unlink [b.id])) :=
  drop (show Matched ([b] ++ rest) from h)

/-- No link leads to a clip that has none. -/
theorem unlink_eq_self (h : Matched bs) (hb : b ∈ bs) (hfree : b.clear = b) (hc : c ∈ bs) :
    c.unlink [b.id] = c := by
  have hnot : ∀ {there back : Bond → Option String} {kind : MediaKind},
      Answered kind there back bs → back b = none → namesOne [b.id] (there c) = false := by
    intro there back kind hans hnone
    cases hi : there c with
    | none => rfl
    | some i =>
      obtain ⟨-, d, hd, hdi, hdc⟩ := hans c hc i hi
      refine Bool.eq_false_iff.2 fun hnamed => ?_
      have he : d.id = b.id := by simpa [namesOne, hdi] using hnamed
      rw [h.eq_of_id hd hb he, hnone] at hdc
      cases hdc
  have hd := hnot h.forth (by rw [← hfree]; rfl)
  have hl := hnot h.back (by rw [← hfree]; rfl)
  simp [Bond.unlink, hd, hl]

/-- A clip lets go of the clips that it names, and they of it. -/
theorem clear_pair (h : Matched bs) (hb : b ∈ bs) :
    Matched (bs.map fun c =>
      if (b.id :: (b.detached.toList ++ b.linked.toList)).contains c.id then c.clear else c) := by
  -- A clip of the pair is `b`, or it links back to `b` and to no other clip.
  have hpair : ∀ c ∈ bs, (b.id :: (b.detached.toList ++ b.linked.toList)).contains c.id = true →
      c = b ∨ (c.kind = .audio ∧ c.linked = some b.id) ∨
        (c.kind = .video ∧ c.detached = some b.id) := by
    intro c hc hmem
    simp only [List.contains_iff_mem, List.mem_cons, List.mem_append,
      Option.mem_toList] at hmem
    rcases hmem with he | hd | hl
    · exact .inl (h.eq_of_id hc hb he)
    · obtain ⟨-, d, hdm, hdi, hdb⟩ := h.forth b hb _ hd
      obtain rfl := h.eq_of_id hdm hc hdi
      exact .inr (.inl ⟨(h.back d hdm _ hdb).1, hdb⟩)
    · obtain ⟨-, d, hdm, hdi, hdb⟩ := h.back b hb _ hl
      obtain rfl := h.eq_of_id hdm hc hdi
      exact .inr (.inr ⟨(h.forth d hdm _ hdb).1, hdb⟩)
  refine h.clear ?_ ?_
  · intro v hv a _ hp hva
    rcases hpair v hv hp with rfl | ⟨hkind, -⟩ | ⟨-, hvb⟩
    · simp [hva]
    · rw [(h.forth v hv _ hva).1] at hkind
      cases hkind
    · rw [hva, Option.some.injEq] at hvb
      simp [hvb]
  · intro a ha v _ hp hav
    rcases hpair a ha hp with rfl | ⟨-, hab⟩ | ⟨hkind, -⟩
    · simp [hav]
    · rw [hav, Option.some.injEq] at hab
      simp [hab]
    · rw [(h.back a ha _ hav).1] at hkind
      cases hkind

end Matched

end Montage
