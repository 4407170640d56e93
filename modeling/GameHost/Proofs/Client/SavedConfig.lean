import GameHost.Proofs.Client.Rounds
import GameHost.Proofs.Client.Settings
import GameHost.Proofs.Disk.Stream
import GameHost.Proofs.Shell.SavedVariables
import GameHost.Proofs.Text.Utf8

/-!
The configuration file written by one client and executed by another. The file is found again where it was written, and
every archived variable comes back with its text up to the first quote in it.
-/
namespace GameHost

/-- The search path of a base folder and of games that were added one after another. -/
def SearchPath.ofGames (base : Path) (games : List Path) : SearchPath :=
  games.foldl (fun folders game => folders.addGame game) (ofBase base)

theorem SearchPath.head_ofGames (base : Path) (games : List Path) :
    (ofGames base games).folders.head? = some (ofGames base games).writeFolder := by
  have start : (ofBase base).folders.head? = some (ofBase base).writeFolder := rfl
  unfold ofGames
  generalize ofBase base = folders at start ⊢
  induction games generalizing folders with
  | nil => exact start
  | cons game games ih => exact ih (folders.addGame game) rfl

/-- Every print is seen. -/
theorem Console.print_ne (text : Text) (c : Console) : c.print text ≠ c := by
  intro same
  have longer := congrArg (fun console => console.pieces.length) same
  simp [pieces_print] at longer

namespace Client
open GameHost.Shell (whole script)

/-- A file that was saved where files are searched first is the one that is loaded. -/
theorem load_of_saveText {folders : SearchPath} {name text : Text} {disk disk' : Disk}
    (first : folders.folders.head? = some folders.writeFolder) (some : text ≠ [])
    (saved : saveText (folders.writePath name) text disk = .ok () disk') :
    folders.load name disk' = .some (Text.encode text) := by
  obtain ⟨file, m, made, saved⟩ := Act.bind_ok.1 saved
  obtain ⟨left, n, flushed, saved⟩ := Act.bind_ok.1 saved
  cases saved
  have beside := Writer.Local.flush (file, m)
  have flushed := Writer.run_ok flushed
  rw [flushed] at beside
  have holds := Writer.create_holds made
  have stored := (holds.flush flushed).1
  have bytes : Text.encode text ≠ [] := by
    intro none
    have decoded := Text.decode_encode text
    rw [none] at decoded
    exact some decoded.symm
  have located : disk'.locate (folders.writePath name) = .ok left.place := by
    rw [show left.place = file.place from beside.place]
    exact beside.locate holds.no_folder (Writer.locate_create made)
  have entry : disk'.entryAt left.place = .some (.file (Packed.ofBytes (Text.encode text))) := by
    rcases stored.entry with entry | ⟨none, _⟩
    · exact entry
    · exact absurd none bytes
  have found : folders.find name disk' = .some (folders.writePath name) := by
    have isFile : disk'.isFile (folders.writePath name) = true := by
      simp only [Disk.isFile, located, entry]
    obtain ⟨later, whole⟩ := List.head?_eq_some_iff.1 first
    unfold SearchPath.find
    rw [whole, List.map_cons, ← SearchPath.writePath, List.find?_cons, isFile]
  have read : disk'.read (folders.writePath name) = .ok (disk'.contents left.place) := by
    simp only [Disk.read, located, entry]
  unfold SearchPath.load
  rw [found, Option.bind_some, read]
  exact congrArg Option.some (stored.contents bytes)

/-- Where nothing is reported, the configuration was written. -/
theorem saved_of_writeConfig {s t : Session} (wrote : writeConfig s = .ok () t)
    (quiet : t.shell.console = s.shell.console) :
    saveText (s.world.folders.writePath configName) (s.shell.variableScript ++ s.shell.aliasScript) s.world.disk =
      .ok () t.world.disk := by
  unfold writeConfig at wrote
  rw [Act.bind_get] at wrote
  cases saved : saveText (s.world.folders.writePath configName) (s.shell.variableScript ++ s.shell.aliasScript)
      s.world.disk with
  | ok _ disk =>
    rw [saved] at wrote
    cases wrote
    rfl
  | error fault disk =>
    rw [saved] at wrote
    cases wrote
    exact absurd quiet (Console.print_ne _ _)

/-- The line that executes a file queues the file's text behind the newline that ends it. -/
theorem runLine_exec {s : Session} (line name : Text) {text : Text} (ready : Ready s)
    (words : (Line.ofText line).words = ["exec".toList, name]) (idle : s.shell.pending = [])
    (there : s.world.folders.load name s.world.disk = some (Text.encode text))
    (fits : Text.size text + 1 < Shell.pendingLimit) :
    Host.runLine line .player s = .ok () (Host.queue (text ++ ['\n'])
      { s with shell := (s.shell.accept line .player).print ("execing " ++ name ++ "\n") }) := by
  have command : NameTable.get? s.shell.commands "exec".toList = some .script := by
    rw [show s.shell.commands = commandTable from ready]
    decide
  have known : Host.meaning (s.shell.accept line .player) = .command .script := Host.meaning_command words command
  have count : (Line.ofText line).count = 2 := by rw [Line.count, words]; rfl
  have word : (Line.ofText line).word 1 = name := by rw [Line.word, words]; rfl
  let m : Session := { s with shell := (s.shell.accept line .player).print ("execing " ++ name ++ "\n") }
  have room : m.shell.hasRoom (text ++ ['\n']) = true := by
    have newline : Text.size ['\n'] = 1 := rfl
    simp only [Shell.hasRoom, show m.shell.pending = [] from idle, Text.size_append, Text.size_nil, decide_eq_true_eq]
    omega
  have queued := Host.onShell_insertText room
  rw [show m.shell.pending = [] from idle, List.append_nil] at queued
  rw [runLine_of_command known]
  change Host.runScript _ = _
  unfold Host.runScript
  rw [Act.bind_get]
  simp only [Shell.accept, count, word]
  have loaded : Program.script (α := ClientCommand) name s.world = some (Text.encode text) := there
  rw [loaded]
  simp only [Text.decode_encode]
  exact queued

theorem distinct_variableTable : Distinct (NameTable.names variableTable) := by
  unfold Distinct
  decide

namespace Worded

variable {folders : SearchPath} {s : Session}

theorem names (worded : Worded folders (settings s)) : NameTable.names s.shell.vars = NameTable.names variableTable := by
  have named (table : NameTable Variable) : NameTable.names table = (table.map declaration).map Prod.fst := by
    rw [List.map_map]
    rfl
  rw [named, named]
  exact congrArg (List.map Prod.fst) worded.declared

theorem distinct_archive (worded : Worded folders (settings s)) : Distinct (s.shell.archive.map Prod.fst) := by
  have part : List.Sublist (s.shell.archive.map Prod.fst) (NameTable.names variableTable) := by
    rw [← worded.names, Shell.archive, List.map_map]
    exact List.filter_sublist.map Prod.fst
  exact distinct_variableTable.sublist part

theorem variableScript_ne_nil (worded : Worded folders (settings s)) : s.shell.variableScript ≠ [] := by
  have declared : ∃ shape ∈ variableTable.map declaration, shape.2.1 = true := by decide
  rw [← worded.declared] at declared
  obtain ⟨_, member, archived⟩ := declared
  obtain ⟨entry, there, rfl⟩ := List.mem_map.1 member
  have saved : (entry.1, entry.2.text) ∈ s.shell.archive :=
    List.mem_map.2 ⟨entry, List.mem_filter.2 ⟨there, archived⟩, rfl⟩
  rw [Shell.variableScript_eq]
  intro none
  have line := List.flatMap_eq_nil_iff.1 none _ (List.mem_map_of_mem saved)
  simp at line

/-- A new client has every archived variable, under a name that a line can begin with. -/
theorem settable (worded : Worded folders (settings s)) {t : Session} (ready : Ready t) (vars : t.shell.vars = variableTable)
    (none : t.shell.aliases = []) {entry : Text × Text} (member : entry ∈ s.shell.archive) : t.shell.Settable entry := by
  obtain ⟨entry, there, rfl⟩ := List.mem_map.1 member
  have there := (List.mem_filter.1 there).1
  have named : entry.1 ∈ NameTable.names variableTable := by
    rw [← worded.names]
    exact List.mem_map_of_mem there
  have all : ∀ name ∈ NameTable.names variableTable,
      (name ≠ [] ∧ name.head? ≠ some '"' ∧ Text.size name < Token.lengthLimit ∧ ¬['/', '/'] <+: name ∧
        name.all Token.isWordChar = true) ∧
      NameTable.has commandTable name = false ∧ NameTable.has variableTable name = true := by
    decide
  obtain ⟨⟨nonempty, unquoted, short, uncommented, chars⟩, unlike, has⟩ := all entry.1 named
  refine ⟨⟨⟨nonempty, unquoted, short⟩, uncommented, List.all_eq_true.1 chars⟩, ⟨?_, ?_⟩, ?_,
    worded.texts entry there⟩
  · rw [show t.shell.commands = commandTable from ready]
    exact unlike
  · rw [none]
    rfl
  · rw [vars]
    exact has

end Worded

theorem worded_newSession (folders : SearchPath) (disk : Disk) (console : Console) :
    Worded folders (settings (newSession folders disk console)) := by
  rw [settings, shell_newSession]
  refine ⟨rfl, rfl, ?_, by simp [Shell.empty, Line.empty]⟩
  intro entry member
  cases List.mem_singleton.1 member
  exact ⟨by decide, by decide, by decide⟩

/-- The saved lines, run on a new client after the line that executes them, bring back each archived variable up to the
first quote in its text. -/
theorem runs_savedLines {folders : SearchPath} {s t : Session} (worded : Worded folders (settings s)) (ready : Ready t)
    (vars : t.shell.vars = variableTable) (none : t.shell.aliases = []) (going : t.shell.paused = false)
    (unbroken : ∀ line ∈ s.shell.savedLines, whole false line = true) :
    ∃ h : Session, Host.Runs (s.shell.savedLines ++ [[]]) t h ∧
      ∀ entry ∈ s.shell.archive, h.shell.variableText entry.1 = Text.beforeQuote entry.2 := by
  obtain ⟨m, values, paused, commands, restored, _⟩ := Host.runs_values s.shell.archive going
    (fun _ member => worded.settable ready vars none member) worded.distinct_archive
    fun entry member => unbroken _ (List.mem_append_left _ (List.mem_map_of_mem member))
  have known : NameTable.get? m.shell.commands "alias".toList = some (.builtin .alias) := by
    rw [commands, show t.shell.commands = commandTable from ready]
    decide
  obtain ⟨h, aliases, kept⟩ := Host.runs_aliasLines s.shell.aliases paused known
    fun entry member => unbroken _ (List.mem_append_right _ (List.mem_map_of_mem member))
  have blank : Host.Runs [[]] h h := .blank rfl rfl (.done h)
  refine ⟨h, (values.append aliases).append blank, fun entry member => ?_⟩
  rw [Shell.variableText, kept]
  exact restored entry member

theorem executed_restores {folders : SearchPath} {s f : Session} (worded : Worded folders (settings s)) (ready : Ready f)
    (vars : f.shell.vars = variableTable) (none : f.shell.aliases = []) (going : f.shell.paused = false)
    (idle : f.shell.pending = [])
    (loaded : f.world.folders.load configName f.world.disk =
      some (Text.encode (s.shell.variableScript ++ s.shell.aliasScript)))
    (short : Text.size (s.shell.variableScript ++ s.shell.aliasScript) < 8000)
    (unbroken : ∀ line ∈ s.shell.savedLines, whole false line = true) :
    ∃ h, (Host.runLine "exec config.cfg" .player >>= fun _ => Host.tick) f = .ok () h ∧ h.shell.pending = [] ∧
      ∀ entry ∈ s.shell.archive, h.shell.variableText entry.1 = Text.beforeQuote entry.2 := by
  have limit : Shell.pendingLimit = 8192 := rfl
  have executed := runLine_exec "exec config.cfg" configName ready (by decide) idle loaded (by omega)
  let m : Session := { f with shell := (f.shell.accept "exec config.cfg" .player).print ("execing " ++ configName ++ "\n") }
  obtain ⟨h, runs, restored⟩ := runs_savedLines worded (t := { m with shell := { m.shell with expansions := 0 } })
    ready vars none going unbroken
  have lines : script (s.shell.savedLines ++ [[]]) = s.shell.variableScript ++ s.shell.aliasScript ++ ['\n'] := by
    rw [Shell.script_append, Shell.script_savedLines]
    rfl
  have ticked := Host.tick_script runs (by rw [lines, Text.size_append, show Text.size ['\n'] = 1 from rfl]; omega)
  rw [lines] at ticked
  exact ⟨h.queue [], (Act.bind_of_ok executed).trans ticked, rfl, restored⟩

/-- However a client comes to its variables, the configuration it writes, if each entry stays on its line, brings every
archived variable back in a new client up to the first quote in its text. So what comes back is what was saved exactly
if there is no quote in it. -/
theorem archived_restored_iff {base : Path} {games : List Path} {disk : Disk} {console : Console} {start s t : Session}
    (new : settings start = settings (newSession (SearchPath.ofGames base games) disk console)) {inputs : List Input}
    (reached : Act.final (Input.states inputs start) = s) (written : Act.final (writeConfig s) = t)
    (quiet : t.shell.console = s.shell.console)
    (short : Text.size (s.shell.variableScript ++ s.shell.aliasScript) < 8000)
    (unbroken : ∀ line ∈ s.shell.savedLines, whole false line = true) (fresh : Console) :
    writeConfig s = .ok () t ∧ ∃ h, (Host.runLine "exec config.cfg" .player >>= fun _ => Host.tick)
        (newSession (SearchPath.ofGames base games) t.world.disk fresh) = .ok () h ∧ h.shell.pending = [] ∧
      ∀ entry ∈ s.shell.vars, entry.2.archived = true →
        h.shell.variableText entry.1 = Text.beforeQuote entry.2.text ∧
          (h.shell.variableText entry.1 = entry.2.text ↔ '"' ∉ entry.2.text) := by
  have worded : Worded (SearchPath.ofGames base games) (settings s) := by
    rw [← reached]
    refine Abides.inputs inputs start ?_
    change Worded _ (settings start)
    rw [new]
    exact worded_newSession ..
  have folders : s.world.folders = SearchPath.ofGames base games := worded.folders
  have wrote : writeConfig s = .ok () t := by
    obtain ⟨_, ran, _⟩ := writeConfig_spec s
    rw [← written, ran]
    rfl
  have loaded := load_of_saveText (by rw [folders]; exact SearchPath.head_ofGames base games)
    (by simp [worded.variableScript_ne_nil]) (saved_of_writeConfig wrote quiet)
  rw [folders] at loaded
  have shell := shell_newSession (SearchPath.ofGames base games) t.world.disk fresh
  obtain ⟨h, ran, empty, restored⟩ := executed_restores worded (ready_newSession _ t.world.disk fresh)
    (congrArg Shell.vars shell) (congrArg Shell.aliases shell) (congrArg Shell.paused shell)
    (congrArg Shell.pending shell) loaded short unbroken
  refine ⟨wrote, h, ran, empty, fun entry member archived => ?_⟩
  have text : h.shell.variableText entry.1 = Text.beforeQuote entry.2.text :=
    restored _ (List.mem_map.2 ⟨entry, List.mem_filter.2 ⟨member, archived⟩, rfl⟩)
  exact ⟨text, by rw [text]; exact Text.beforeQuote_eq_iff⟩

/-- A client whose name was set to a word with a quote in it. -/
def quotedName : Session :=
  Act.final (Input.states [.host (.run "_cl_name a\"b" .player)]
    (newSession (SearchPath.ofGames "/" []) (Disk.empty []) Console.captured))

theorem quoted_name_cut : quotedName.shell.variableText "_cl_name" = "a\"b".toList ∧
    ∃ h, (Host.runLine "exec config.cfg" .player >>= fun _ => Host.tick)
        (newSession (SearchPath.ofGames "/" []) (Act.final (writeConfig quotedName)).world.disk Console.captured) =
          .ok () h ∧
      h.shell.variableText "_cl_name" = "a".toList := by
  obtain ⟨_, h, ran, _, restored⟩ := archived_restored_iff (s := quotedName) rfl rfl rfl (by decide +kernel)
    (by decide +kernel) (by decide +kernel) Console.captured
  have entry : ("_cl_name".toList, Shell.assign "a\"b" (Shell.newVariable "player" true false)) ∈
      quotedName.shell.vars := by decide +kernel
  exact ⟨by decide +kernel, h, ran, (restored _ entry rfl).1.trans (by decide)⟩

end Client

end GameHost
