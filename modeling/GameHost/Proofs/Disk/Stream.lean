import GameHost.Proofs.Disk.Entries

/-!
What a writer has put into its file and what it still holds. Whatever it does touches its own file only, and its
file and its block together are always the bytes written so far.
-/
namespace GameHost

namespace Writer

/-- An open file and its disk before and after something that touches nothing but the file. -/
structure Beside (x y : Writer × Disk) : Prop where
  place : y.1.place = x.1.place
  home : y.2.home = x.2.home
  others : ∀ other ≠ x.1.place, y.2.entryAt other = x.2.entryAt other

theorem Beside.refl (x : Writer × Disk) : Beside x x := ⟨rfl, rfl, fun _ _ => rfl⟩

theorem Beside.trans {x y z : Writer × Disk} (first : Beside x y) (second : Beside y z) : Beside x z := by
  refine ⟨second.place.trans first.place, second.home.trans first.home, ?_⟩
  intro other ne
  exact (second.others other (by rw [first.place]; exact ne)).trans (first.others other ne)

/-- An action on an open file that touches nothing but the file, however it ends. -/
def Local (act : FileAct Unit) : Prop := ∀ x, Beside x (Act.final (act x))

namespace Local

theorem bind {act : FileAct Unit} {next : Unit → FileAct Unit} (first : Local act) (second : ∀ u, Local (next u)) :
    Local (act >>= next) := by
  intro x
  have here := first x
  cases ran : act x with
  | error fault y =>
    rw [ran] at here
    rw [Act.bind_of_error ran]
    exact here
  | ok u y =>
    rw [ran] at here
    rw [Act.bind_of_ok ran]
    exact here.trans (second u y)

theorem pure : Local (pure ()) := fun x => .refl x

theorem get_bind {next : Writer × Disk → FileAct Unit} (each : ∀ x, Local (next x)) : Local (get >>= next) :=
  fun x => each x x

theorem put (bytes : Packed) : Local (put bytes) := by
  intro x
  unfold Writer.put
  dsimp only
  cases wrote : x.2.write x.1.place x.1.offset bytes with
  | error fault => exact .refl x
  | ok disk =>
    exact ⟨rfl, Disk.home_write wrote, fun other ne => (Disk.write_same ne wrote).entry⟩

theorem hold (bytes : Packed) : Local (hold bytes) := fun _ => ⟨rfl, rfl, fun _ _ => rfl⟩

theorem flush : Local flush := by
  unfold Writer.flush
  exact get_bind fun x => bind (put _) fun _ => fun _ => ⟨rfl, rfl, fun _ _ => rfl⟩

theorem write (bytes : Bytes) : Local (write bytes) := by
  unfold Writer.write
  apply get_bind
  intro x
  split
  · exact hold _
  · apply bind flush
    intro _
    split
    · exact hold _
    · exact put _

theorem writeAll (pieces : List Bytes) : Local (writeAll pieces) := by
  induction pieces with
  | nil => exact pure
  | cons piece rest ih => exact bind (write piece) fun _ => ih

end Local

theorem close_same (w : Writer) (disk : Disk) {other : Place} (ne : other ≠ w.place) :
    Disk.Same other disk (w.close disk) := by
  have beside := Local.flush (w, disk)
  unfold close
  cases ran : flush (w, disk) with
  | ok u x => 
    rw [ran] at beside
    exact ⟨beside.home, beside.others other ne⟩
  | error fault x => 
    rw [ran] at beside
    exact ⟨beside.home, beside.others other ne⟩

/-- The file of a writer is there, as long as what has been put into it; a device stays empty. -/
structure Stored (w : Writer) (disk : Disk) (bytes : Bytes) : Prop where
  offset : w.offset = bytes.length
  entry : disk.entryAt w.place = some (.file (Packed.ofBytes bytes)) ∨ bytes = [] ∧ disk.entryAt w.place = some .device

/-- The file and what is held are together the bytes written so far. -/
def Holds (w : Writer) (disk : Disk) (bytes : Bytes) : Prop :=
  ∃ stored, Stored w disk stored ∧ bytes = stored ++ w.held.bytes

variable {w w' : Writer} {disk disk' : Disk} {bytes : Bytes}

theorem overlay_end (stored : Bytes) (more : Packed) :
    Disk.overlay (Packed.ofBytes stored) stored.length more = Packed.ofBytes (stored ++ more.bytes) := by
  apply Packed.ext
  simp [Disk.overlay, Packed.padded]

theorem Stored.write {stored : Bytes} (there : Stored w disk stored) {more : Packed}
    (wrote : disk.write w.place w.offset more = .ok disk') :
    disk'.entryAt w.place = some (.file (Packed.ofBytes (stored ++ more.bytes))) ∨
      stored ++ more.bytes = [] ∧ disk'.entryAt w.place = some .device := by
  unfold Disk.write at wrote
  split at wrote
  · rename_i none
    have nothing : more.bytes = [] := List.eq_nil_of_length_eq_zero (by simpa using none)
    cases wrote
    rw [nothing, List.append_nil]
    exact there.entry
  · rcases there.entry with file | ⟨rfl, device⟩
    · rw [file] at wrote
      cases wrote
      refine .inl ?_
      rw [Disk.entryAt_put_self (by rw [file]; simp), there.offset, overlay_end]
    · rw [device] at wrote
      cases wrote

theorem Stored.put {stored : Bytes} (there : Stored w disk stored) {data : Packed}
    (ran : put data (w, disk) = .ok () (w', disk')) :
    Stored w' disk' (stored ++ data.bytes) ∧ w'.held = w.held := by
  unfold Writer.put at ran
  dsimp only at ran
  cases wrote : disk.write w.place w.offset data with
  | error fault =>
    rw [wrote] at ran
    cases ran
  | ok after =>
    rw [wrote] at ran
    cases ran
    refine ⟨⟨?_, ?_⟩, rfl⟩
    · simp [there.offset]
    · exact there.write wrote

theorem Stored.put_error {stored : Bytes} (there : Stored w disk stored) {data : Packed} {fault : StorageFault}
    {x : Writer × Disk} (ran : Writer.put data (w, disk) = .error fault x) :
    x = (w, disk) ∧ disk.entryAt w.place = some .device := by
  unfold Writer.put at ran
  dsimp only at ran
  cases wrote : disk.write w.place w.offset data with
  | ok after =>
    rw [wrote] at ran
    cases ran
  | error _ =>
    rw [wrote] at ran
    cases ran
    refine ⟨rfl, ?_⟩
    rcases there.entry with file | ⟨_, device⟩
    · unfold Disk.write at wrote
      rw [file] at wrote
      split at wrote <;> cases wrote
    · exact device

theorem Holds.flush (holds : Holds w disk bytes) (ran : flush (w, disk) = .ok () (w', disk')) :
    Stored w' disk' bytes ∧ w'.held = Packed.empty := by
  obtain ⟨stored, there, rfl⟩ := holds
  unfold Writer.flush at ran
  rw [Act.bind_get] at ran
  obtain ⟨_, ⟨m, after⟩, wrote, ran⟩ := Act.bind_ok.1 ran
  cases ran
  obtain ⟨now, _⟩ := there.put wrote
  exact ⟨⟨now.offset, now.entry⟩, rfl⟩

theorem Stored.holds {stored : Bytes} (there : Stored w disk stored) (empty : w.held = Packed.empty) :
    Holds w disk stored := ⟨stored, there, by simp [empty]⟩

theorem Holds.hold (holds : Holds w disk bytes) {data : Packed} (ran : hold data (w, disk) = .ok () (w', disk')) :
    Holds w' disk' (bytes ++ data.bytes) := by
  obtain ⟨stored, there, rfl⟩ := holds
  cases ran
  exact ⟨stored, ⟨there.offset, there.entry⟩, by simp⟩

theorem Holds.write (holds : Holds w disk bytes) {more : Bytes} (ran : write more (w, disk) = .ok () (w', disk')) :
    Holds w' disk' (bytes ++ more) := by
  unfold Writer.write at ran
  rw [Act.bind_get] at ran
  split at ran
  · simpa using holds.hold ran
  · obtain ⟨_, ⟨m, after⟩, flushed, ran⟩ := Act.bind_ok.1 ran
    obtain ⟨there, empty⟩ := holds.flush flushed
    split at ran
    · simpa using (there.holds empty).hold ran
    · obtain ⟨now, held⟩ := there.put ran
      simpa using now.holds (held.trans empty)

theorem Holds.writeAll {pieces : List Bytes} (holds : Holds w disk bytes)
    (ran : writeAll pieces (w, disk) = .ok () (w', disk')) : Holds w' disk' (bytes ++ pieces.flatten) := by
  induction pieces generalizing w disk bytes with
  | nil =>
    cases ran
    simpa using holds
  | cons piece rest ih =>
    obtain ⟨_, ⟨m, after⟩, wrote, ran⟩ := Act.bind_ok.1 ran
    simpa using ih (holds.write wrote) ran

theorem Stored.contents (there : Stored w disk bytes) (some : bytes ≠ []) : (disk.contents w.place).bytes = bytes := by
  unfold Disk.contents
  rcases there.entry with file | ⟨none, _⟩
  · rw [file]
    exact Packed.bytes_ofBytes bytes
  · exact absurd none some

theorem Holds.length (holds : Holds w disk bytes) : bytes.length = w.offset + w.held.size := by
  obtain ⟨stored, there, rfl⟩ := holds
  rw [List.length_append, Packed.length_bytes, there.offset]

theorem Holds.there (holds : Holds w disk bytes) : disk.entryAt w.place ≠ none := by
  obtain ⟨stored, ⟨_, file | ⟨_, device⟩⟩, _⟩ := holds
  · rw [file]
    simp
  · rw [device]
    simp

theorem Holds.no_folder (holds : Holds w disk bytes) : disk.entryAt w.place ≠ some .folder := by
  obtain ⟨stored, ⟨_, file | ⟨_, device⟩⟩, _⟩ := holds
  · simp [file]
  · simp [device]

theorem close_of_empty (empty : w.held = Packed.empty) (disk : Disk) : w.close disk = disk := by
  obtain ⟨place, offset, held⟩ := w
  cases empty
  rfl

/-- A closed file has all that was written, unless it is a device. -/
theorem Holds.close (holds : Holds w disk bytes) :
    (w.close disk).entryAt w.place = some (.file (Packed.ofBytes bytes)) ∨
      (w.close disk).entryAt w.place = some .device := by
  have beside := Local.flush (w, disk)
  unfold Writer.close
  cases ran : Writer.flush (w, disk) with
  | ok _ x =>
    rw [ran] at beside
    obtain ⟨there, _⟩ := holds.flush ran
    have entry := there.entry
    rw [show x.1.place = w.place from beside.place] at entry
    rcases entry with file | ⟨_, device⟩
    · exact .inl file
    · exact .inr device
  | error fault x =>
    obtain ⟨stored, there, rfl⟩ := holds
    unfold Writer.flush at ran
    rw [Act.bind_get] at ran
    cases wrote : Writer.put w.held (w, disk) with
    | ok _ y =>
      rw [Act.bind_of_ok wrote] at ran
      cases ran
    | error _ y =>
      rw [Act.bind_of_error wrote] at ran
      cases ran
      obtain ⟨rfl, device⟩ := there.put_error wrote
      exact .inr device

theorem run_same {place : Place} {act : FileAct Unit} (acts : Local act) (w : Writer) (disk : Disk)
    (ne : place ≠ w.place) : Disk.Same place disk (Act.final (run act w disk)) := by
  have beside := acts (w, disk)
  unfold run
  cases ran : act (w, disk) with
  | ok _ x =>
    rw [ran] at beside
    exact ⟨beside.home, beside.others place ne⟩
  | error fault x =>
    rw [ran] at beside
    have same : Disk.Same place disk x.2 := ⟨beside.home, beside.others place ne⟩
    exact same.trans (close_same x.1 x.2 (by rw [show x.1.place = w.place from beside.place]; exact ne))

theorem run_ok {act : FileAct Unit} (ran : run act w disk = .ok w' disk') : act (w, disk) = .ok () (w', disk') := by
  unfold run at ran
  cases done : act (w, disk) with
  | ok _ x =>
    rw [done] at ran
    cases ran
    rfl
  | error fault x =>
    rw [done] at ran
    cases ran

theorem create_holds {path : Path} (made : create path bytes disk = .ok w disk') : Holds w disk' bytes := by
  obtain ⟨_, m, _, made⟩ := Act.bind_ok.1 made
  obtain ⟨place, n, found, made⟩ := Act.bind_ok.1 made
  have wrote := run_ok made
  have fresh : Stored (atStart place) n [] := by
    refine ⟨rfl, ?_⟩
    rcases (Disk.create_ok found).2 with file | device
    · exact .inl file
    · exact .inr ⟨rfl, device⟩
  simpa using (fresh.holds rfl).write wrote

theorem place_create {path : Path} (made : create path bytes disk = .ok w disk') :
    w.place = Path.landing disk.home path := by
  obtain ⟨_, m, parents, made⟩ := Act.bind_ok.1 made
  obtain ⟨place, n, found, made⟩ := Act.bind_ok.1 made
  have beside := Local.write bytes (atStart place, n)
  rw [run_ok made] at beside
  have home : (Act.final (Disk.makeParents path disk)).home = disk.home := Disk.home_makeParents path disk
  rw [parents] at home
  rw [← home]
  exact beside.place.trans (Disk.create_ok found).1

/-- What touches nothing but the file leaves all paths as they are. -/
theorem Beside.locate {x y : Writer × Disk} (beside : Beside x y) (file : x.2.entryAt x.1.place ≠ some .folder) {path : Path}
    {place : Place} (located : x.2.locate path = .ok place) : y.2.locate path = .ok place := by
  refine Disk.locate_of_folders beside.home ?_ located
  intro folder found
  rw [beside.others folder, found]
  rintro rfl
  exact file found

theorem locate_create {path : Path} (made : create path bytes disk = .ok w disk') : disk'.locate path = .ok w.place := by
  obtain ⟨_, m, _, made⟩ := Act.bind_ok.1 made
  obtain ⟨place, n, found, made⟩ := Act.bind_ok.1 made
  have beside := Local.write bytes (atStart place, n)
  rw [run_ok made] at beside
  have file : n.entryAt place ≠ some .folder := by
    rcases (Disk.create_ok found).2 with file | device
    · simp [file]
    · simp [device]
  rw [show w.place = place from beside.place]
  exact beside.locate file (Disk.locate_create found)

theorem create_same {place : Place} (path : Path) (bytes : Bytes) (there : disk.entryAt place ≠ none)
    (ne : place ≠ Path.landing disk.home path) : Disk.Same place disk (Act.final (create path bytes disk)) := by
  refine .bind (Disk.makeParents_same path there) fun _ m _ same => ?_
  have apart : place ≠ Path.landing m.home path := by
    rw [same.home]
    exact ne
  refine .bind (Disk.create_same m apart) fun new n found _ => ?_
  rw [← (Disk.create_ok found).1] at apart
  exact run_same (Local.write bytes) (atStart new) n apart

/-- The file of a writer is no device, so that writing to it does not fail. -/
def Ordinary (x : Writer × Disk) : Prop := ∃ data, x.2.entryAt x.1.place = some (.file data)

def Succeeds (act : FileAct Unit) : Prop := ∀ x, Ordinary x → ∃ y, act x = .ok () y ∧ Ordinary y

namespace Succeeds

theorem bind {act : FileAct Unit} {next : Unit → FileAct Unit} (first : Succeeds act) (second : Succeeds (next ())) :
    Succeeds (act >>= next) := by
  intro x ordinary
  obtain ⟨y, ran, still⟩ := first x ordinary
  obtain ⟨z, onward, last⟩ := second y still
  exact ⟨z, (Act.bind_of_ok ran).trans onward, last⟩

theorem get_bind {next : Writer × Disk → FileAct Unit} (each : ∀ x, Succeeds (next x)) : Succeeds (get >>= next) :=
  fun x => each x x

theorem put (bytes : Packed) : Succeeds (put bytes) := by
  rintro ⟨w, disk⟩ ⟨data, there⟩
  have wrote : ∃ after, disk.write w.place w.offset bytes = .ok after ∧ ∃ left, after.entryAt w.place = some (.file left) := by
    unfold Disk.write
    split
    · exact ⟨disk, rfl, data, there⟩
    · dsimp only at there
      rw [there]
      exact ⟨_, rfl, _, Disk.entryAt_put_self (by rw [there]; simp)⟩
  obtain ⟨after, wrote, left⟩ := wrote
  refine ⟨({ w with offset := w.offset + bytes.size }, after), ?_, left⟩
  unfold Writer.put
  dsimp only
  rw [wrote]

theorem hold (bytes : Packed) : Succeeds (hold bytes) := fun _ ordinary => ⟨_, rfl, ordinary⟩

theorem flush : Succeeds flush := by
  unfold Writer.flush
  exact get_bind fun x => bind (put _) fun _ ordinary => ⟨_, rfl, ordinary⟩

theorem write (bytes : Bytes) : Succeeds (write bytes) := by
  unfold Writer.write
  apply get_bind
  intro x
  split
  · exact hold _
  · apply bind flush
    split
    · exact hold _
    · exact put _

theorem writeAll (pieces : List Bytes) : Succeeds (writeAll pieces) := by
  induction pieces with
  | nil => exact fun x ordinary => ⟨x, rfl, ordinary⟩
  | cons piece rest ih => exact bind (write piece) ih

end Succeeds

end Writer

end GameHost
