import GameHost.Proofs.Client.Move
import GameHost.Proofs.Disk.Components
import GameHost.Proofs.Disk.Stream

/-!
Where demos are recorded. Of the demo's name only two points in a row are refused, so that the path of the recording goes
on from the write folder and never up from it, if the name is relative. An absolute name is taken as it stands, and the
write folder is forgotten.
-/
namespace GameHost.Client

theorem hasTwoPoints_cons (c : Char) (rest : Text) :
    hasTwoPoints (c :: rest) = (c == '.' && rest.head? == some '.' || hasTwoPoints rest) := by
  match rest with
  | [] => simp [hasTwoPoints]
  | d :: rest =>
    by_cases points : c = '.' ∧ d = '.'
    · obtain ⟨rfl, rfl⟩ := points
      simp [hasTwoPoints]
    · have other : hasTwoPoints (c :: d :: rest) = hasTwoPoints (d :: rest) := by
        rw [hasTwoPoints]
        rintro _ rfl same
        exact points ⟨rfl, (List.cons.inj same).1⟩
      have apart : (c == '.' && (d :: rest).head? == some '.') = false := by simpa using points
      rw [other, apart, Bool.false_or]

/-- Two points in a row stand in one of two texts, or one at the end of the first and one at the start of the second. -/
theorem hasTwoPoints_append {front back : Text} (points : hasTwoPoints (front ++ back) = true) :
    hasTwoPoints front = true ∨ hasTwoPoints back = true ∨ front.getLast? = some '.' := by
  induction front with
  | nil => exact .inr (.inl points)
  | cons c front ih =>
    rw [List.cons_append, hasTwoPoints_cons, Bool.or_eq_true, Bool.and_eq_true] at points
    rw [hasTwoPoints_cons, Bool.or_eq_true, Bool.and_eq_true]
    rcases points with ⟨first, second⟩ | later
    · cases front with
      | nil => exact .inr (.inr (by simpa using first))
      | cons d front => exact .inl (.inl ⟨first, second⟩)
    · rcases ih later with inside | back | last
      · exact .inl (.inr inside)
      · exact .inr (.inl back)
      · exact .inr (.inr (by rw [List.getLast?_cons, last]; rfl))

theorem hasTwoPoints_of_infix {text : Text} (points : ['.', '.'] <:+: text) : hasTwoPoints text = true := by
  obtain ⟨before, after, rfl⟩ := points
  induction before with
  | nil => simp [hasTwoPoints]
  | cons c before ih =>
    rw [List.cons_append, List.cons_append, hasTwoPoints_cons, ih, Bool.or_true]

theorem fileName_of_last {name : Path} (last : name.getLast? = some '.') : '.' ∈ Path.fileName name := by
  obtain ⟨front, rfl⟩ := List.getLast?_eq_some_iff.1 last
  simp [Path.fileName]

/-- A name that is not refused has no two points in a row with its extension either. -/
theorem hasTwoPoints_withExtension {name : Path} (calm : hasTwoPoints name = false) :
    hasTwoPoints (Path.withExtension name Demo.extension) = false := by
  unfold Path.withExtension
  split
  · exact calm
  · rename_i plain
    rw [Bool.eq_false_iff]
    intro points
    rcases hasTwoPoints_append points with front | back | last
    · rw [calm] at front
      cases front
    · exact absurd back (by decide)
    · exact plain (List.contains_iff_mem.2 (fileName_of_last last))

theorem isAbsolute_withExtension (name : Path) :
    Path.isAbsolute (Path.withExtension name Demo.extension) = Path.isAbsolute name := by
  unfold Path.withExtension
  split
  · rfl
  · cases name <;> rfl

/-- The path that a line to record asks for. -/
def recordingPath (s : Session) : Path :=
  s.world.folders.writePath (Path.withExtension (s.shell.line.word 1) Demo.extension)

theorem not_refused {line : Line} {c : Client} (allowed : recordRefusal? line c = none) :
    hasTwoPoints (line.word 1) = false := by
  unfold recordRefusal? at allowed
  rw [← Bool.not_eq_true]
  intro points
  rw [if_pos points] at allowed
  split at allowed <;> cases allowed

variable {run : Text → Source → Act Session Unit} {s t : Session}

/-- The session in which a line to record makes its file: the map, if one is named, is started by then. -/
def Prepared (run : Text → Source → Act Session Unit) (s m : Session) : Prop :=
  core m = core s ∨ ∃ u, core u = core s ∧ run ("map " ++ s.shell.line.word 2) .player u = .ok () m

/-- A line to record that is not refused comes to the start of a recording at its path, if the map starts. -/
theorem record_begun (allowed : recordRefusal? s.shell.line s.world = none) (ran : record run s = .ok () t) :
    ∃ m, Prepared run s m ∧ Begun (recordingPath s) (trackAsked s.shell.line) m t := by
  have begins {m : Session} (prepared : Prepared run s m)
      (started : beginRecording (recordingPath s) (trackAsked s.shell.line) m = .ok () t) :
      ∃ m, Prepared run s m ∧ Begun (recordingPath s) (trackAsked s.shell.line) m t :=
    ⟨m, prepared, of_spec (beginRecording_spec _ _ m) started⟩
  have rest {u : Session} (same : core u = core s) (ran : (if 2 < s.shell.line.count then (do
      run ("map " ++ s.shell.line.word 2) .player
      beginRecording (recordingPath s) (trackAsked s.shell.line))
      else beginRecording (recordingPath s) (trackAsked s.shell.line)) u = .ok () t) :
      ∃ m, Prepared run s m ∧ Begun (recordingPath s) (trackAsked s.shell.line) m t := by
    split at ran
    · obtain ⟨_, m, mapped, started⟩ := Act.bind_ok.1 ran
      exact begins (.inr ⟨u, same, mapped⟩) started
    · exact begins (.inl same) ran
  unfold record at ran
  obtain ⟨_, m, found, ran⟩ := Act.bind_ok.1 ran
  cases found
  rw [ask_at, allowed] at ran
  dsimp only at ran
  split at ran
  · rw [print_at] at ran
    refine rest ?_ ran
    rfl
  · exact rest rfl ran

/-- A recording goes below the write folder exactly if its name is relative, or says all of the folder itself. -/
theorem recorded_inside_iff (player : s.shell.source = .player) (allowed : recordRefusal? s.shell.line s.world = none)
    (ran : perform run .record s = .ok () t) :
    let name := s.shell.line.word 1
    let folder := s.world.folders.writeFolder
    (∃ m, Prepared run s m ∧ Begun (recordingPath s) (trackAsked s.shell.line) m t) ∧
      (Path.Inside folder (recordingPath s) ↔ Path.isAbsolute name = false ∨
        Path.components folder <+: Path.components (Path.withExtension name Demo.extension)) ∧
      (Path.isAbsolute name = false → ∀ disk file made,
        Writer.create (recordingPath s) (Demo.trackLine (trackAsked s.shell.line)) disk = .ok file made →
          Path.landing disk.home folder <+: file.place) := by
  intro name folder
  have calm : ['.', '.'] ∉ Path.parts (Path.withExtension name Demo.extension) := by
    intro member
    have points := hasTwoPoints_of_infix (Path.infix_of_mem_parts member)
    rw [hasTwoPoints_withExtension (not_refused allowed)] at points
    cases points
  have absolute := isAbsolute_withExtension name
  refine ⟨?_, ?_, ?_⟩
  · have recorded : record run s = .ok () t := by
      change ifFromPlayer (record run) s = .ok () t at ran
      unfold ifFromPlayer at ran
      obtain ⟨asked, m, found, ran⟩ := Act.bind_ok.1 ran
      cases found
      rwa [player] at ran
    exact record_begun allowed recorded
  · rw [← absolute]
    exact Path.inside_join_iff calm folder
  · intro relative disk file made created
    rw [Writer.place_create created]
    exact Path.prefix_landing_join (absolute.trans relative) calm disk.home folder

/-- A session whose line records to an absolute name. -/
def absoluteNameSession : Session :=
  let fresh := newSession (SearchPath.ofBase ".") (Disk.empty ["home".toList]) Console.captured
  { fresh with shell := fresh.shell.accept "record /tmp/x" .player }

/-- The recording is made, and it is not below the write folder. -/
theorem absolute_name_leaves_folder : ∃ t, perform Host.runLine .record absoluteNameSession = .ok () t ∧
    t.world.demo = .recording ⟨["tmp".toList, "x.dem".toList], 0, Packed.ofBytes (Demo.trackLine (-1))⟩ ∧
    recordingPath absoluteNameSession = "/tmp/x.dem" ∧
    ¬ Path.Inside absoluteNameSession.world.folders.writeFolder (recordingPath absoluteNameSession) := by
  have fine : Act.ends (fun _ t => t.world.demo ==
      .recording ⟨["tmp".toList, "x.dem".toList], 0, Packed.ofBytes (Demo.trackLine (-1))⟩)
      (perform Host.runLine .record absoluteNameSession) = true := by decide +kernel
  obtain ⟨_, t, ran, doing⟩ := Act.ok_of_ends fine
  have ⟨_, inside, _⟩ := recorded_inside_iff (by decide +kernel) (by decide +kernel) ran
  refine ⟨t, ran, eq_of_beq doing, by decide +kernel, ?_⟩
  rw [inside]
  decide +kernel

end GameHost.Client
