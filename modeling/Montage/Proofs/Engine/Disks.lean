/-
What each operation on a disk leaves at every place.

The place of a path hangs on the directories alone: disks with the same directories
(`Disk.Alike`) follow it alike. Making directories changes no file (`Disk.Grows`), writing and
removing a file change one place, and moving a file changes two.
-/
import Mathlib.Data.List.Find
import Montage.Engine.Disk
import Montage.Proofs.Engine.Paths
import Montage.Proofs.Reading

namespace Montage

namespace Disk

variable {d u v : Disk} {p q : Path} {origin place other : Location} {names : List String}

/-! ## One place -/

theorem find?_set_self (es : List (Location × Entry)) (place : Location) (e : Entry) :
    (es.filter (·.1 != place) ++ [(place, e)]).find? (·.1 == place) = some (place, e) := by
  have hrest : (es.filter (·.1 != place)).find? (·.1 == place) = none := by
    rw [List.find?_eq_none]
    intro f hf
    simpa using (List.mem_filter.1 hf).2
  rw [List.find?_append, hrest]
  simp

theorem find?_filter_other (es : List (Location × Entry)) (h : other ≠ place) :
    (es.filter (·.1 != place)).find? (·.1 == other) = es.find? (·.1 == other) := by
  induction es with
  | nil => rfl
  | cons f es ih =>
    by_cases hf : f.1 = place
    · have hother : (f.1 == other) = false := by simpa [hf] using h.symm
      rw [List.filter_cons_of_neg (by simp [hf]), ih, List.find?_cons, hother]
    · rw [List.filter_cons_of_pos (by simpa using hf), List.find?_cons, List.find?_cons, ih]

theorem entry?_set (hplace : place ≠ []) (e : Entry) :
    entry? (d.set place e) other = if other = place then some e else d.entry? other := by
  unfold entry? set
  by_cases h : other = place
  · cases h
    simp only [List.isEmpty_iff, hplace, find?_set_self, if_false, if_true, Option.map_some]
  · have hnew : [(place, e)].find? (·.1 == other) = none := by simpa using Ne.symm h
    simp only [List.find?_append, find?_filter_other _ h, hnew, Option.or_none, if_neg h]

theorem entry?_clear (hplace : place ≠ []) :
    entry? (d.clear place) other = if other = place then none else d.entry? other := by
  unfold entry? clear
  by_cases h : other = place
  · cases h
    simp [hplace]
  · simp only [find?_filter_other _ h, if_neg h]

/-! ## Places of paths -/

/-- Where a name leads from a place. -/
def climb (origin : Location) (name : String) : Location :=
  if name == ".." then origin.dropLast else origin ++ [name]

theorem follow_cons_eq_ok {name : String} :
    d.follow origin (name :: names) = .ok place ↔
      d.entry? origin = some .directory ∧ ¬ longestName < byteCount name ∧
        d.follow (climb origin name) names = .ok place := by
  rw [follow, climb]
  cases h : d.entry? origin with
  | none => simp
  | some e =>
    cases e with
    | file content => simp
    | directory =>
      by_cases hlong : longestName < byteCount name
      · simp [hlong]
      · simp only [hlong, if_false, not_false_eq_true, true_and]

theorem follow_eq_foldl (h : d.follow origin names = .ok place) : place = names.foldl climb origin := by
  induction names generalizing origin with
  | nil => simpa [follow] using h.symm
  | cons name names ih => exact ih (follow_cons_eq_ok.1 h).2.2

theorem place_eq_ok :
    d.place p = .ok place ↔
      flaw? p = none ∧ d.follow (if p.root = .here then d.here else []) p.names = .ok place := by
  unfold Disk.place
  cases flaw? p <;> simp

/-- Disks with the same directories, seen from the same one. -/
structure Alike (d u : Disk) : Prop where
  here : u.here = d.here
  directories : ∀ place, u.entry? place = some .directory ↔ d.entry? place = some .directory

namespace Alike

theorem follow_eq_ok (h : Alike d u) :
    u.follow origin names = .ok place ↔ d.follow origin names = .ok place := by
  induction names generalizing origin with
  | nil => rfl
  | cons name names ih => rw [follow_cons_eq_ok, follow_cons_eq_ok, h.directories, ih]

theorem place_eq_ok (h : Alike d u) : u.place p = .ok place ↔ d.place p = .ok place := by
  rw [Disk.place_eq_ok, Disk.place_eq_ok, h.here, h.follow_eq_ok]

end Alike

/-- On whatever disks it is followed, with the same directory to start from, a path leads to
one place. -/
theorem place_unique (hhere : u.here = d.here) (hplace : d.place p = .ok place)
    (hother : u.place p = .ok other) : other = place := by
  rw [follow_eq_foldl (place_eq_ok.1 hplace).2, follow_eq_foldl (place_eq_ok.1 hother).2, hhere]

/-- What is not whole never stands where the whole goes, but beside it. -/
theorem unfinished_apart (hhere : u.here = d.here) (hq : p.unfinished? = some q)
    (hplace : d.place p = .ok place) (hother : u.place q = .ok other) :
    other ≠ [] ∧ other ≠ place ∧ (p.name? ≠ some ".." → other.length = place.length) := by
  obtain ⟨parents, name, longer, hnames, rfl, hlength, -⟩ := Path.unfinished?_eq_some hq
  have hother := follow_eq_foldl (place_eq_ok.1 hother).2
  have hplace := follow_eq_foldl (place_eq_ok.1 hplace).2
  rw [hhere, List.foldl_append, List.foldl_cons, List.foldl_nil] at hother
  rw [hnames, List.foldl_append, List.foldl_cons, List.foldl_nil] at hplace
  -- the two last names are followed from one place
  generalize parents.foldl climb _ = base at hother hplace
  have hup : (longer == "..") = false := by
    rw [beq_eq_false_iff_ne]
    rintro rfl
    simp only [show "..".length = 2 from rfl] at hlength
    omega
  rw [climb, hup, if_neg Bool.false_ne_true] at hother
  rw [hother, hplace]
  refine ⟨by simp, ?_, fun hname => ?_⟩
  · unfold climb
    split
    · intro h
      have hlengths := congrArg List.length h
      simp only [List.length_append, List.length_singleton, List.length_dropLast] at hlengths
      omega
    · intro h
      have hname : longer = name := by simpa using h
      rw [hname] at hlength
      omega
  · have hdown : (name == "..") = false := by simpa [Path.name?, hnames] using hname
    simp [climb, hdown]

/-! ## Directories that are made -/

/-- What stands at a place stays there; where there was nothing there may be a directory. -/
def Keeps (d u : Disk) (place : Location) : Prop :=
  u.entry? place = d.entry? place ∨ d.entry? place = none ∧ u.entry? place = some .directory

theorem Keeps.file {content : String} (h : Keeps d u place)
    (hfile : u.entry? place = some (.file content)) : d.entry? place = some (.file content) := by
  rcases h with heq | ⟨-, hdir⟩
  · rw [← heq, hfile]
  · rw [hdir] at hfile
    cases hfile

/-- A disk with more directories, and with nothing else changed. -/
structure Grows (d u : Disk) : Prop where
  here : u.here = d.here
  keeps : ∀ place, Keeps d u place

namespace Grows

theorem refl (d : Disk) : Grows d d := ⟨rfl, fun _ => .inl rfl⟩

theorem trans (h : Grows d u) (h' : Grows u v) : Grows d v := by
  refine ⟨h'.here.trans h.here, fun place => ?_⟩
  rcases h'.keeps place with heq | ⟨hnone, hdir⟩
  · rw [Keeps, heq]
    exact h.keeps place
  · rcases h.keeps place with heq | ⟨-, hdir'⟩
    · exact .inr ⟨heq ▸ hnone, hdir⟩
    · rw [hdir'] at hnone
      cases hnone

end Grows

theorem makeDirectory_grows (h : d.makeDirectory p = .ok u) : Grows d u := by
  unfold makeDirectory at h
  cases hplace : d.place p with
  | error e => simp [hplace] at h
  | ok place =>
    simp only [hplace] at h
    split at h
    · cases h
    next hvacant =>
    cases h
    have hnone : d.entry? place = none := by simpa using hvacant
    have hroot : place ≠ [] := by
      rintro rfl
      cases hnone
    refine ⟨rfl, fun other => ?_⟩
    rw [Keeps, entry?_set hroot]
    split
    next hother => exact .inr ⟨hother ▸ hnone, rfl⟩
    · exact .inl rfl

theorem ensureDirectory_grows (h : d.ensureDirectory p = .ok u) : Grows d u := by
  unfold ensureDirectory at h
  split at h
  next hmade =>
    cases h
    exact makeDirectory_grows hmade
  · split at h <;> cases h
    exact .refl d

theorem mapError_eq_ok {ε ε' β : Type} {x : Except ε β} {f : ε → ε'} {b : β} :
    x.mapError f = .ok b ↔ x = .ok b := by
  cases x <;> simp [Except.mapError]

theorem ensureDirectories_grows {depth : Nat} (h : d.ensureDirectories p depth = .ok u) :
    Grows d u := by
  induction depth generalizing d p u with
  | zero => exact ensureDirectory_grows (mapError_eq_ok.1 h)
  | succ depth ih =>
    unfold ensureDirectories at h
    split at h
    · obtain ⟨above, habove, hlast⟩ := bind_eq_ok.1 h
      exact (ih habove).trans (ensureDirectory_grows (mapError_eq_ok.1 hlast))
    next hmade =>
      cases h
      exact makeDirectory_grows hmade
    · split at h <;> cases h
      exact .refl d

/-! ## Files that are written, removed and moved -/

theorem write_eq_ok {content : String} (h : d.write p content = .ok u) :
    ∃ place, d.place p = .ok place ∧ d.entry? place ≠ some .directory ∧
      u = d.set place (.file content) := by
  unfold write at h
  cases hplace : d.place p with
  | error e => simp [hplace] at h
  | ok place =>
    simp only [hplace] at h
    split at h <;> cases h
    next hfile => exact ⟨place, rfl, hfile, rfl⟩

theorem read?_eq_some {e : Entry} :
    d.read? p = some e ↔ ∃ place, d.place p = .ok place ∧ d.entry? place = some e := by
  unfold read?
  cases d.place p <;> simp

theorem write_eq_error {content : String} {f : DiskFailure} (h : d.write p content = .error f) :
    f.paths = [p] ∧ ∀ held, d.read? p ≠ some (.file held) := by
  unfold write at h
  cases hplace : d.place p with
  | error e =>
    simp only [hplace, Except.error.injEq] at h
    exact ⟨h ▸ rfl, fun held hheld => by simp [read?, hplace] at hheld⟩
  | ok place =>
    simp only [hplace] at h
    split at h <;> cases h
    next hdir => exact ⟨rfl, fun held hheld => by simp [read?, hplace, hdir] at hheld⟩

/-- A disk that differs from another at most in the file of a path. -/
structure Touched (p : Path) (d u : Disk) : Prop extends Alike d u where
  others : ∀ place, d.place p ≠ .ok place → u.entry? place = d.entry? place

theorem Touched.refl (p : Path) (d : Disk) : Touched p d d := ⟨⟨rfl, fun _ => .rfl⟩, fun _ _ => rfl⟩

theorem Touched.trans (h : Touched p d u) (h' : Touched p u v) : Touched p d v :=
  ⟨⟨h'.here.trans h.here, fun place => (h'.directories place).trans (h.directories place)⟩,
    fun place hplace =>
      (h'.others place (mt h.place_eq_ok.1 hplace)).trans (h.others place hplace)⟩

theorem write_touched {content : String} (h : d.write p content = .ok u) :
    Touched p d u ∧ u.read? p = some (.file content) := by
  obtain ⟨place, hplace, hfile, rfl⟩ := write_eq_ok h
  have hroot : place ≠ [] := by
    rintro rfl
    exact hfile rfl
  have htouched : Touched p d (d.set place (.file content)) := by
    refine ⟨⟨rfl, fun other => ?_⟩, fun other hother => ?_⟩
    · rw [entry?_set hroot]
      split
      next h => simp [h, hfile]
      · rfl
    · rw [entry?_set hroot, if_neg fun h : other = place => hother (h ▸ hplace)]
  exact ⟨htouched, read?_eq_some.2 ⟨place, htouched.place_eq_ok.2 hplace, by rw [entry?_set hroot, if_pos rfl]⟩⟩

/-- Where a file is removed there is none afterwards, also when the disk refuses. -/
theorem removeIfThere_cases (d : Disk) (p : Path) :
    (∃ u, d.removeIfThere p = .ok u ∧ Touched p d u ∧ ∀ held, u.read? p ≠ some (.file held)) ∨
      ∃ cause, d.removeIfThere p = .error ⟨cause, [p]⟩ ∧ ∀ held, d.read? p ≠ some (.file held) := by
  unfold removeIfThere remove
  cases hplace : d.place p with
  | error e =>
    have hnone : ∀ held, d.read? p ≠ some (.file held) := fun held hheld => by
      simp [read?, hplace] at hheld
    cases e
    case missing => exact .inl ⟨d, rfl, .refl p d, hnone⟩
    all_goals exact .inr ⟨_, rfl, hnone⟩
  | ok place =>
    have hread : d.read? p = d.entry? place := by rw [read?, hplace]
    rw [hread]
    dsimp only
    cases hentry : d.entry? place with
    | none => exact .inl ⟨d, rfl, .refl p d, by simp [hread, hentry]⟩
    | some e =>
      cases e with
      | directory => exact .inr ⟨_, rfl, by simp⟩
      | file content =>
        have hroot : place ≠ [] := by
          rintro rfl
          cases hentry
        refine .inl ⟨d.clear place, rfl, ⟨⟨rfl, fun other => ?_⟩, fun other hother => ?_⟩,
          fun held hheld => ?_⟩
        · rw [entry?_clear hroot]
          split
          next h => simp [h, hentry]
          · rfl
        · rw [entry?_clear hroot, if_neg fun h : other = place => hother (h ▸ hplace)]
        · obtain ⟨other, hother, hheld⟩ := read?_eq_some.1 hheld
          rw [place_unique (d := d) (u := d.clear place) rfl hplace hother, entry?_clear hroot, if_pos rfl] at hheld
          cases hheld

theorem move_eq_error {f : DiskFailure} (h : d.move p q = .error f) : ∃ cause, f = ⟨cause, [p, q]⟩ := by
  unfold move at h
  dsimp only at h
  split at h
  · exact ⟨_, (Except.error.inj h).symm⟩
  · split at h <;> cases h
    exact ⟨_, rfl⟩
  · split at h
    · exact ⟨_, (Except.error.inj h).symm⟩
    · split at h <;> cases h
      exact ⟨_, rfl⟩

theorem moved_eq_ok {e : Entry} {old new : Location} (h : d.moved p q = .ok (e, old, new)) :
    d.place p = .ok old ∧ d.place q = .ok new ∧ d.entry? old = some e ∧ q.name? ≠ some ".." := by
  unfold moved at h
  cases hflaw : flaw? p <|> flaw? q with
  | some e => simp [hflaw, throw, throwThe, MonadExceptOf.throw, bind, Except.bind] at h
  | none =>
  simp only [hflaw] at h
  obtain ⟨base, hbase, h⟩ := bind_eq_ok.1 h
  obtain ⟨base', hbase', h⟩ := bind_eq_ok.1 h
  split at h
  · cases h
  next hup =>
  obtain ⟨old', hold, h⟩ := bind_eq_ok.1 h
  split at h
  · cases h
  next e' he =>
  obtain ⟨new', hnew, h⟩ := bind_eq_ok.1 h
  cases h
  simp only [Bool.or_eq_true, beq_iff_eq, not_or] at hup
  exact ⟨hold, hnew, he, hup.2⟩

/-- A disk on which a file went from one place to another. -/
theorem entry?_replace (hold : place ≠ []) (hnew : other ≠ []) (content : String) (l : Location) :
    entry? ((d.clear place).set other (.file content)) l =
      if l = other then some (.file content) else if l = place then none else d.entry? l := by
  rw [entry?_set hnew, entry?_clear hold]

theorem replace_alike {content : String} (hfile : d.entry? place = some (.file content))
    (hdir : d.entry? other ≠ some .directory) :
    Alike d ((d.clear place).set other (.file content)) := by
  have hold : place ≠ [] := by
    rintro rfl
    cases hfile
  have hnew : other ≠ [] := by
    rintro rfl
    exact hdir rfl
  refine ⟨rfl, fun l => ?_⟩
  rw [entry?_replace hold hnew]
  split
  next h => simp [h, hdir]
  · split
    next h => simp [h, hfile]
    · rfl

theorem entry?_relocate_source (hold : place ≠ []) (h : ¬ other <+: place) :
    entry? (d.relocate place other) place = none := by
  have hnone : (d.relocate place other).entries.find? (·.1 == place) = none := by
    rw [List.find?_eq_none]
    intro f hf
    obtain ⟨g, -, rfl⟩ := List.mem_map.1 hf
    by_cases hg : place.isPrefixOf g.1
    · simp only [hg, if_true, beq_iff_eq]
      exact fun heq => h ⟨_, heq⟩
    · simp only [hg, Bool.false_eq_true, if_false, beq_iff_eq]
      exact fun heq => hg (by simp [heq])
  simp [hold, hnone, entry?]

theorem entry?_relocate_target (hold : place ≠ []) (hnew : other ≠ []) (h : place ≠ other) :
    entry? (d.relocate place other) other = d.entry? place := by
  -- what comes to the target is what stood at the source itself
  have hfind : (d.clear other).entries.find? (fun f =>
      (if place.isPrefixOf f.1 then (other ++ f.1.drop place.length, f.2) else f).1 == other) =
      d.entries.find? (·.1 == place) := by
    rw [← find?_filter_other d.entries h]
    refine List.find?_congr fun f hf => ?_
    have hother : f.1 ≠ other := by simpa using (List.mem_filter.1 hf).2
    by_cases hf : place <+: f.1
    · obtain ⟨rest, hrest⟩ := hf
      simp [← hrest, Bool.beq_eq_decide_eq]
    · have hne : f.1 ≠ place := by
        rintro rfl
        exact hf (List.prefix_refl _)
      simp [hf, hne, hother]
  unfold entry? relocate
  simp only [List.isEmpty_iff, hold, hnew, if_false, List.find?_map, Function.comp_def]
  rw [hfind]
  cases hplace : d.entries.find? (·.1 == place) with
  | none => rfl
  | some f =>
    dsimp only [Option.map_some]
    split <;> rfl

theorem move_eq_ok (h : d.move p q = .ok u) :
    ∃ old new, d.place p = .ok old ∧ d.place q = .ok new ∧
      ((∃ content, d.entry? old = some (.file content) ∧ d.entry? new ≠ some .directory ∧
          u = (d.clear old).set new (.file content)) ∨
        d.entry? old = some .directory ∧ q.name? ≠ some ".." ∧ u = d.relocate old new) := by
  unfold move at h
  dsimp only at h
  split at h
  · cases h
  next content old new hmoved =>
    obtain ⟨hold, hnew, hentry, -⟩ := moved_eq_ok hmoved
    split at h <;> cases h
    next hdir => exact ⟨old, new, hold, hnew, .inl ⟨content, hentry, hdir, rfl⟩⟩
  next old new hmoved =>
    obtain ⟨hold, hnew, hentry, hname⟩ := moved_eq_ok hmoved
    split at h
    · cases h
    · split at h <;> cases h
      exact ⟨old, new, hold, hnew, .inr ⟨hentry, hname, rfl⟩⟩

/-- What is moved from where it was not whole is gone there, and a file comes as it is and
leaves the others alone. -/
theorem move_unfinished (hq : q.unfinished? = some p) (h : d.move p q = .ok u) :
    u.read? p = none ∧ (∀ held, d.read? p = some (.file held) → u.read? q = some (.file held)) ∧
      ∀ held, u.read? q = some (.file held) → Alike d u ∧ d.read? p = some (.file held) ∧
        ∀ place, d.place p ≠ .ok place → d.place q ≠ .ok place → u.entry? place = d.entry? place := by
  obtain ⟨old, new, hold, hnew, ⟨content, hfile, hdir, rfl⟩ | ⟨hdir, hname, rfl⟩⟩ := move_eq_ok h <;>
    obtain ⟨hroot, hapart, hbeside⟩ := unfinished_apart rfl hq hnew hold
  · have halike := replace_alike hfile hdir
    have hroot' : new ≠ [] := by
      rintro rfl
      exact hdir rfl
    have hread : d.read? p = some (.file content) := read?_eq_some.2 ⟨old, hold, hfile⟩
    have hread' : ((d.clear old).set new (.file content)).read? q = some (.file content) :=
      read?_eq_some.2 ⟨new, halike.place_eq_ok.2 hnew, by rw [entry?_replace hroot hroot', if_pos rfl]⟩
    refine ⟨?_, fun held hheld => ?_, fun held hheld => ⟨halike, ?_, fun place hp hq => ?_⟩⟩
    · rw [read?, halike.place_eq_ok.2 hold]
      simp [entry?_replace hroot hroot', hapart]
    · rw [hread', ← hread, hheld]
    · rw [hread, ← hread', hheld]
    · rw [entry?_replace hroot hroot',
        if_neg fun h : place = new => hq (h ▸ hnew), if_neg fun h : place = old => hp (h ▸ hold)]
  · -- a directory takes all that is under it along, and leaves nothing where it stood
    have hprefix : ¬ new <+: old := fun h => hapart (h.eq_of_length (hbeside hname).symm).symm
    refine ⟨?_, fun held hheld => ?_, fun held hheld => ?_⟩
    · rw [← Option.not_isSome_iff_eq_none, Option.isSome_iff_exists]
      rintro ⟨e, he⟩
      obtain ⟨place, hplace, he⟩ := read?_eq_some.1 he
      rw [place_unique (d := d) (u := d.relocate old new) rfl hold hplace,
        entry?_relocate_source hroot hprefix] at he
      cases he
    · obtain ⟨place, hplace, hheld⟩ := read?_eq_some.1 hheld
      rw [hold, Except.ok.injEq] at hplace
      rw [← hplace, hdir] at hheld
      cases hheld
    · obtain ⟨place, hplace, hheld⟩ := read?_eq_some.1 hheld
      cases place_unique (d := d) (u := d.relocate old new) rfl hnew hplace
      have hroot' : new ≠ [] := by
        rintro rfl
        cases hheld
      rw [entry?_relocate_target hroot hroot' hapart, hdir] at hheld
      cases hheld

end Disk

end Montage
