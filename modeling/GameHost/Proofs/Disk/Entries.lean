import GameHost.Disk.Stream
import GameHost.Proofs.Act

/-!
What is where on a disk. Making folders and files changes what is at their own places only, and a path leads to one
place whatever else is on the disk.
-/
namespace GameHost

theorem lookup_replaced_of_ne {place other : Place} (ne : other ≠ place) (entry : Entry)
    (entries : List (Place × Entry)) :
    (entries.map fun e => if e.1 == place then (place, entry) else e).lookup other = entries.lookup other := by
  induction entries with
  | nil => rfl
  | cons e rest ih =>
    obtain ⟨key, value⟩ := e
    by_cases here : key = place
    · subst here
      simpa [List.lookup_cons, beq_eq_false_iff_ne.2 ne] using ih
    · rw [List.map_cons, if_neg (by simpa using here), List.lookup_cons, List.lookup_cons, ih]

theorem lookup_replaced_self {place : Place} (entry : Entry) {entries : List (Place × Entry)}
    (there : (entries.lookup place).isSome = true) :
    (entries.map fun e => if e.1 == place then (place, entry) else e).lookup place = some entry := by
  induction entries with
  | nil => cases there
  | cons e rest ih =>
    obtain ⟨key, value⟩ := e
    by_cases here : key = place
    · subst here
      simp
    · have other : (place == key) = false := beq_eq_false_iff_ne.2 (Ne.symm here)
      rw [List.lookup_cons, other] at there
      rw [List.map_cons, if_neg (by simpa using here), List.lookup_cons, other]
      exact ih there

namespace Disk

variable {disk : Disk} {place other : Place} {entry : Entry}

@[simp] theorem home_put (place : Place) (entry : Entry) (disk : Disk) : (disk.put place entry).home = disk.home := by
  unfold put
  split <;> rfl

theorem lookup_put (place other : Place) (entry : Entry) (disk : Disk) : (disk.put place entry).entries.lookup other =
    if other = place then some entry else disk.entries.lookup other := by
  unfold put
  by_cases same : other = place
  · subst same
    rw [if_pos rfl]
    split
    · rename_i there
      exact lookup_replaced_self entry there
    · rename_i missing
      have none : disk.entries.lookup other = none := Option.not_isSome_iff_eq_none.1 missing
      simp [List.lookup_append, none]
  · rw [if_neg same]
    split
    · exact lookup_replaced_of_ne same entry _
    · simp [List.lookup_append, List.lookup_cons, beq_eq_false_iff_ne.2 same]

theorem entryAt_put_of_ne (ne : other ≠ place) (entry : Entry) (disk : Disk) :
    (disk.put place entry).entryAt other = disk.entryAt other := by
  unfold entryAt
  rw [home_put, lookup_put, if_neg ne]

theorem entryAt_put_self (free : disk.entryAt place ≠ some .folder) : (disk.put place entry).entryAt place = some entry := by
  unfold entryAt at free ⊢
  rw [home_put, lookup_put, if_pos rfl]
  split
  · rename_i above
    exact absurd (if_pos above) free
  · rfl

end Disk

/-- The place that a path leads to, if it leads to any. -/
def Path.landing (home : Place) (path : Path) : Place :=
  go (if isAbsolute path then [] else home) (parts path)
where
  go : Place → List Text → Place
    | here, [] => here
    | here, part :: rest =>
      if isIdle part then go here rest
      else if part == ['.', '.'] then go here.dropLast rest
      else go (here ++ [part]) rest

namespace Disk

theorem follow_landing {disk : Disk} {here place : Place} {parts : List Text}
    (followed : disk.follow here parts = .ok place) : place = Path.landing.go here parts := by
  induction parts generalizing here with
  | nil =>
    cases followed
    rfl
  | cons part rest ih =>
    unfold follow at followed
    unfold Path.landing.go
    by_cases idle : Path.isIdle part = true
    · rw [if_pos idle] at followed ⊢
      exact ih followed
    · rw [if_neg idle] at followed ⊢
      by_cases up : (part == ['.', '.']) = true
      · rw [if_pos up] at followed ⊢
        exact ih followed
      · rw [if_neg up] at followed ⊢
        split at followed
        · cases followed
        · split at followed
          · rename_i last
            cases followed
            rw [List.isEmpty_iff.1 last]
            rfl
          · split at followed
            · exact ih followed
            · cases followed
            · cases followed

theorem locateNew_landing {disk : Disk} {path : Path} {place : Place} (located : disk.locateNew path = .ok place) :
    place = Path.landing disk.home path := by
  unfold locateNew at located
  dsimp only at located
  split at located
  · split at located <;> cases located
  · exact follow_landing located

/-- A path leads to the same place as long as the folders stay. -/
theorem follow_of_folders {disk disk' : Disk}
    (folders : ∀ place, disk.entryAt place = some .folder → disk'.entryAt place = some .folder) {here place : Place}
    {parts : List Text} (followed : disk.follow here parts = .ok place) : disk'.follow here parts = .ok place := by
  induction parts generalizing here with
  | nil => exact followed
  | cons part rest ih =>
    unfold follow at followed ⊢
    by_cases idle : Path.isIdle part = true
    · rw [if_pos idle] at followed ⊢
      exact ih followed
    · rw [if_neg idle] at followed ⊢
      by_cases up : (part == ['.', '.']) = true
      · rw [if_pos up] at followed ⊢
        exact ih followed
      · rw [if_neg up] at followed ⊢
        by_cases long : nameLimit < Text.size part
        · rw [if_pos long] at followed
          cases followed
        · rw [if_neg long] at followed ⊢
          by_cases last : rest.isEmpty = true
          · rw [if_pos last] at followed ⊢
            exact followed
          · rw [if_neg last] at followed ⊢
            cases found : disk.entryAt (here ++ [part]) with
            | none =>
              rw [found] at followed
              cases followed
            | some entry =>
              rw [found] at followed
              cases entry with
              | folder =>
                rw [folders _ found]
                exact ih followed
              | file data => cases followed
              | device => cases followed

theorem locate_of_folders {disk disk' : Disk} (home : disk'.home = disk.home)
    (folders : ∀ place, disk.entryAt place = some .folder → disk'.entryAt place = some .folder) {path : Path} {place : Place}
    (located : disk.locate path = .ok place) : disk'.locate path = .ok place := by
  unfold locate at located ⊢
  cases bad : badPath? path with
  | some fault =>
    rw [bad] at located
    cases located
  | none =>
    rw [bad] at located
    rw [show disk'.origin path = disk.origin path by rw [origin, origin, home]]
    exact follow_of_folders folders located

/-- Two disks with the same at a place, and the same home folder. -/
structure Same (place : Place) (d e : Disk) : Prop where
  home : e.home = d.home
  entry : e.entryAt place = d.entryAt place

theorem Same.refl (place : Place) (d : Disk) : Same place d d := ⟨rfl, rfl⟩

theorem Same.trans {place : Place} {d e f : Disk} (first : Same place d e) (second : Same place e f) : Same place d f :=
  ⟨second.home.trans first.home, second.entry.trans first.entry⟩

theorem Same.bind {α β : Type} {place : Place} {act : DiskAct α} {next : α → DiskAct β} {disk : Disk}
    (first : Same place disk (Act.final (act disk)))
    (second : ∀ a m, act disk = .ok a m → Same place disk m → Same place m (Act.final (next a m))) :
    Same place disk (Act.final ((act >>= next) disk)) := by
  cases ran : act disk with
  | ok a m =>
    rw [ran] at first
    rw [Act.bind_of_ok ran]
    exact first.trans (second a m ran first)
  | error fault m =>
    rw [ran] at first
    rw [Act.bind_of_error ran]
    exact first

theorem Same.put {place other : Place} (ne : other ≠ place) (entry : Entry) (disk : Disk) :
    Same other disk (disk.put place entry) :=
  ⟨home_put place entry disk, entryAt_put_of_ne ne entry disk⟩

theorem home_write {disk disk' : Disk} {place : Place} {offset : Nat} {bytes : Packed}
    (wrote : disk.write place offset bytes = .ok disk') : disk'.home = disk.home := by
  unfold write at wrote
  split at wrote
  · cases wrote
    rfl
  · split at wrote
    · cases wrote
      exact home_put place _ disk
    · cases wrote

theorem write_same {disk disk' : Disk} {place other : Place} {offset : Nat} {bytes : Packed} (ne : other ≠ place)
    (wrote : disk.write place offset bytes = .ok disk') : Same other disk disk' := by
  unfold write at wrote
  split at wrote
  · cases wrote
    exact .refl other disk
  · split at wrote
    · cases wrote
      exact .put ne _ disk
    · cases wrote

theorem create_same {path : Path} {place : Place} (disk : Disk) (ne : place ≠ Path.landing disk.home path) :
    Same place disk (Act.final (create path disk)) := by
  unfold create
  split
  · exact .refl place disk
  · cases located : disk.locateNew path with
    | error fault => exact .refl place disk
    | ok new =>
      rw [← locateNew_landing located] at ne
      dsimp only
      split
      · exact .refl place disk
      · exact .refl place disk
      · exact .put ne _ disk

theorem create_ok {path : Path} {place : Place} {disk disk' : Disk} (made : create path disk = .ok place disk') :
    place = Path.landing disk.home path ∧
      (disk'.entryAt place = some (.file Packed.empty) ∨ disk'.entryAt place = some .device) := by
  unfold create at made
  split at made
  · cases made
  · cases located : disk.locateNew path with
    | error fault =>
      rw [located] at made
      cases made
    | ok new =>
      rw [located] at made
      have lands := locateNew_landing located
      dsimp only at made
      split at made
      · cases made
      · rename_i device
        cases made
        exact ⟨lands, .inr device⟩
      · rename_i free _
        cases made
        exact ⟨lands, .inl (entryAt_put_self free)⟩

/-- The path of a file that was made leads to the file. -/
theorem locate_create {path : Path} {place : Place} {disk disk' : Disk} (made : create path disk = .ok place disk') :
    disk'.locate path = .ok place := by
  unfold create at made
  cases bad : badPath? path with
  | some fault =>
    rw [bad] at made
    cases made
  | none =>
    rw [bad] at made
    cases located : disk.locateNew path with
    | error fault =>
      rw [located] at made
      cases made
    | ok new =>
      have there : disk.locate path = .ok new := by
        unfold locateNew at located
        dsimp only at located
        split at located
        · split at located <;> cases located
        · rw [locate, bad]
          exact located
      rw [located] at made
      dsimp only at made
      split at made
      · cases made
      · cases made
        exact there
      · rename_i free _
        cases made
        refine locate_of_folders (home_put _ _ _) ?_ there
        intro folder found
        have ne : folder ≠ place := by
          rintro rfl
          exact free found
        rw [entryAt_put_of_ne ne, found]

theorem makeFolders_same {place : Place} (steps : List Text) (here : Place) {disk : Disk}
    (there : disk.entryAt place ≠ none) : Same place disk (Act.final (makeFolders here steps disk)) := by
  induction steps generalizing here disk with
  | nil => exact .refl place disk
  | cons step rest ih =>
    unfold makeFolders
    split
    · exact ih _ there
    · split
      · exact .refl place disk
      · rw [Act.bind_get]
        cases found : disk.entryAt (here ++ [step]) with
        | none =>
          have ne : place ≠ here ++ [step] := by
            rintro rfl
            exact there found
          have made := Same.put ne .folder disk
          exact made.trans (ih _ (by rw [made.entry]; exact there))
        | some entry =>
          cases entry with
          | folder => exact ih _ there
          | file data => exact .refl place disk
          | device => exact .refl place disk

theorem makeParents_same {place : Place} (path : Path) {disk : Disk} (there : disk.entryAt place ≠ none) :
    Same place disk (Act.final (makeParents path disk)) := by
  unfold makeParents
  cases badPath? path.parent with
  | none => exact makeFolders_same _ _ there
  | some fault =>
    cases fault with
    | missing => exact makeFolders_same _ _ there
    | _ => exact .refl place disk

theorem home_makeParents (path : Path) (disk : Disk) : (Act.final (makeParents path disk)).home = disk.home := by
  have top : disk.entryAt [] ≠ none := by simp [entryAt]
  exact (makeParents_same path top).home

end Disk

end GameHost
