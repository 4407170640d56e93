import GameHost.Proofs.Shell.IndexedTable

/-!
The names of a shell as maps. Whatever is added, replaced and removed, each of the three tables is an association list
in the order of insertion, in which a name of any case has the entry last stored under it. The same is true of tables
that find their entries by an index, and these answer alike.
-/
namespace GameHost

/-- What happens to a table by name. -/
inductive Change (β : Type) where
  | store (name : Text) (entry : β)
  | drop (name : Text)

namespace Change

variable {β : Type}

/-- The entry last stored under a name, if it was not dropped since, of changes with the latest first. -/
def stored (name : Text) : List (Change β) → Option β
  | [] => none
  | .store other entry :: earlier => if Text.same other name then some entry else stored name earlier
  | .drop other :: earlier => if Text.same other name then none else stored name earlier

/-- The names that have an entry, each behind those that had one when it got its own. -/
def order : List (Change β) → List Text
  | [] => []
  | .store name _ :: earlier =>
    if (stored name earlier).isSome then order earlier else order earlier ++ [Text.fold name]
  | .drop name :: earlier => (order earlier).filter (· ≠ Text.fold name)

end Change

namespace NameTable

variable {β : Type} {table : NameTable β} {name : Text}

theorem find?_of_free (free : has table name = false) {other : Text} (same : Text.same name other = true) :
    find? table other = none := by
  rw [← find?_congr same]
  exact Option.not_isSome_iff_eq_none.1 (Bool.not_eq_true _ ▸ free)

theorem get?_add (free : has table name = false) (entry : β) (other : Text) :
    get? (add table name entry) other = if Text.same name other then some entry else get? table other := by
  simp only [get?, find?, add, List.find?_append]
  split
  · rename_i same
    have missing := find?_of_free free same
    rw [find?] at missing
    simp [missing, same]
  · rename_i different
    simp [different]

theorem get?_update (held : has table name = true) (entry : β) (other : Text) :
    get? (update table name fun _ => entry) other = if Text.same name other then some entry else get? table other := by
  rw [get?, find?_update, get?]
  cases found : find? table other with
  | none =>
    have different : ¬ Text.same name other = true := by
      intro same
      rw [has, find?_congr same, found] at held
      cases held
    rw [if_neg different]
    rfl
  | some old =>
    have alike : Text.same old.1 name = Text.same name other := by
      rw [Text.same_congr (same_of_find? found), Text.same_comm]
    simp only [Option.map_some, alike]
    split <;> rfl

theorem get?_erase (table : NameTable β) (name other : Text) :
    get? (erase table name) other = if Text.same name other then none else get? table other := by
  rw [get?, find?, erase, List.find?_filter, get?, find?]
  split
  · rename_i same
    rw [List.find?_eq_none.2 fun entry _ => ?_]
    · rfl
    · rw [Text.same_comm entry.1 name, Text.same_congr same, Text.same_comm other]
      cases Text.same entry.1 other <;> simp
  · rename_i different
    refine congrArg _ (congrArg (List.find? · table) (funext fun entry => ?_))
    cases alike : Text.same entry.1 other with
    | false => simp
    | true =>
      rw [Text.same_congr alike, Text.same_comm]
      simp [different]

end NameTable

open IndexedTable (keys)

/-- A table, and one with an index, that are the map and the order that changes made. -/
structure Mapped {β : Type} (table : NameTable β) (indexed : IndexedTable β) (changes : List (Change β)) : Prop where
  entries : indexed.entries = table
  /-- No place dangles, and each is that of its name. -/
  places : ∀ (key : Text) (place : Nat), indexed.places[key]? = some place ↔ (keys table)[place]? = some key
  found : ∀ name, indexed.get? name = Change.stored name changes
  searched : ∀ name, NameTable.get? table name = Change.stored name changes
  order : keys table = Change.order changes

namespace Mapped

variable {β : Type} {table : NameTable β} {indexed : IndexedTable β} {changes : List (Change β)}

theorem empty : Mapped ([] : NameTable β) .empty [] :=
  ⟨rfl, IndexedTable.sound_empty.place_iff, fun name => IndexedTable.sound_empty.get?_eq name, fun _ => rfl, rfl⟩

theorem of_sound (sound : indexed.Sound) (searched : ∀ name, NameTable.get? indexed.entries name = Change.stored name changes)
    (order : keys indexed.entries = Change.order changes) : Mapped indexed.entries indexed changes :=
  ⟨rfl, sound.place_iff, fun name => (sound.get?_eq name).trans (searched name), searched, order⟩

theorem sound (mapped : Mapped table indexed changes) : indexed.Sound :=
  ⟨fun key place => mapped.entries ▸ mapped.places key place⟩

theorem has_eq (mapped : Mapped table indexed changes) (name : Text) :
    NameTable.has table name = (Change.stored name changes).isSome := by
  rw [← mapped.searched, NameTable.get?, Option.isSome_map]
  rfl

theorem indexed_has_eq (mapped : Mapped table indexed changes) (name : Text) :
    indexed.has name = (Change.stored name changes).isSome := by
  rw [mapped.sound.has_eq, mapped.entries, mapped.has_eq]

theorem free (mapped : Mapped table indexed changes) {name : Text} (nowhere : indexed.place? name = none) :
    NameTable.has table name = false ∧ Change.stored name changes = none := by
  have free : NameTable.has table name = false := mapped.entries ▸ mapped.sound.place?_eq_none_iff.1 nowhere
  exact ⟨free, Option.not_isSome_iff_eq_none.1 (by rw [← mapped.has_eq, free]; exact Bool.false_ne_true)⟩

theorem taken (mapped : Mapped table indexed changes) {name : Text} {place : Nat} (there : indexed.place? name = some place) :
    NameTable.has table name = true ∧ (Change.stored name changes).isSome = true := by
  have taken : NameTable.has table name = true := by
    rw [← Bool.not_eq_false, ← mapped.entries, ← mapped.sound.place?_eq_none_iff, there]
    exact Option.some_ne_none place
  exact ⟨taken, (mapped.has_eq name).symm.trans taken⟩

theorem added (mapped : Mapped table indexed changes) {name : Text} (free : Change.stored name changes = none) (entry : β) :
    Mapped (NameTable.add table name entry) (indexed.add name entry) (.store name entry :: changes) := by
  obtain rfl := mapped.entries
  have absent : NameTable.has indexed.entries name = false := by rw [mapped.has_eq, free]; rfl
  refine of_sound (mapped.sound.add absent entry) (fun other => ?_) ?_
  · rw [Change.stored, ← mapped.searched]
    exact NameTable.get?_add absent entry other
  · rw [Change.order, free, ← mapped.order]
    exact IndexedTable.keys_add _ _ _

theorem replaced (mapped : Mapped table indexed changes) {name : Text} {place : Nat} (there : indexed.place? name = some place)
    (entry : β) : Mapped (NameTable.update table name fun _ => entry) (indexed.replace place entry)
      (.store name entry :: changes) := by
  obtain rfl := mapped.entries
  obtain ⟨held, stored⟩ := mapped.taken there
  have now := mapped.sound.entries_replace there entry
  rw [← now]
  refine of_sound (mapped.sound.replace there entry) (fun other => ?_) ?_
  · rw [now, Change.stored, ← mapped.searched]
    exact NameTable.get?_update held entry other
  · rw [now, IndexedTable.keys_update, Change.order, if_pos stored, mapped.order]

theorem removed (mapped : Mapped table indexed changes) {name : Text} {place : Nat} (there : indexed.place? name = some place) :
    Mapped (NameTable.erase table name) (indexed.remove name place) (.drop name :: changes) := by
  obtain rfl := mapped.entries
  have now := mapped.sound.entries_remove there
  rw [← now]
  refine of_sound (mapped.sound.remove there) (fun other => ?_) ?_
  · rw [now, Change.stored, ← mapped.searched]
    exact NameTable.get?_erase indexed.entries name other
  · rw [now, IndexedTable.keys_erase, mapped.order]
    rfl

end Mapped

/-- The commands, aliases and variables of a shell in tables that have an index. -/
structure IndexedNames (α : Type) where
  commands : IndexedTable (Action α)
  aliases : IndexedTable Text
  vars : IndexedTable Variable

namespace IndexedNames

variable {α : Type}

def empty : IndexedNames α := ⟨.empty, .empty, .empty⟩

def addCommand (name : Text) (action : Action α) (t : IndexedNames α) : Bool × IndexedNames α :=
  if t.commands.has name || t.aliases.has name then (false, t)
  else (true, { t with commands := t.commands.add name action })

def removeCommand (name : Text) (t : IndexedNames α) : IndexedNames α :=
  match t.commands.place? name with
  | none => t
  | some place => { t with commands := t.commands.remove name place }

/-- Give a name a value as an alias, whatever the variables are called. -/
def putAlias (name value : Text) (t : IndexedNames α) : Bool × IndexedNames α :=
  if Shell.aliasNameLimit ≤ Text.size name then (false, t)
  else if t.commands.has name then (false, t)
  else
    match t.aliases.place? name with
    | some place => (true, { t with aliases := t.aliases.replace place value })
    | none => (true, { t with aliases := t.aliases.add name value })

def setAlias (name value : Text) (t : IndexedNames α) : Bool × IndexedNames α :=
  if t.vars.has name then (false, t) else t.putAlias name value

def removeAlias (name : Text) (t : IndexedNames α) : Bool × IndexedNames α :=
  match t.aliases.place? name with
  | none => (false, t)
  | some place => (true, { t with aliases := t.aliases.remove name place })

def addVariable (name text : Text) (archived shared : Bool) (t : IndexedNames α) : Bool × IndexedNames α :=
  if t.vars.has name then (false, t)
  else (true, { t with vars := t.vars.add name (Shell.newVariable text archived shared) })

end IndexedNames

namespace Shell

variable {α : Type}

/-- What was stored and dropped in each table, the latest first. -/
structure Records (α : Type) where
  commands : List (Change (Action α))
  aliases : List (Change Text)
  vars : List (Change Variable)

namespace Records

/-- It is right to add a command under a name that no command and no alias has. -/
def addCommand (name : Text) (action : Action α) (r : Records α) : Bool × Records α :=
  if (Change.stored name r.commands).isSome || (Change.stored name r.aliases).isSome then (false, r)
  else (true, { r with commands := .store name action :: r.commands })

def removeCommand (name : Text) (r : Records α) : Records α :=
  if (Change.stored name r.commands).isSome then { r with commands := .drop name :: r.commands } else r

/-- It is right to give an alias a value if its name is short and no command has it. -/
def putAlias (name value : Text) (r : Records α) : Bool × Records α :=
  if aliasNameLimit ≤ Text.size name || (Change.stored name r.commands).isSome then (false, r)
  else (true, { r with aliases := .store name value :: r.aliases })

def setAlias (name value : Text) (r : Records α) : Bool × Records α :=
  if (Change.stored name r.vars).isSome then (false, r) else r.putAlias name value

def removeAlias (name : Text) (r : Records α) : Bool × Records α :=
  if (Change.stored name r.aliases).isSome then (true, { r with aliases := .drop name :: r.aliases }) else (false, r)

def addVariable (name text : Text) (archived shared : Bool) (r : Records α) : Bool × Records α :=
  if (Change.stored name r.vars).isSome then (false, r)
  else (true, { r with vars := .store name (newVariable text archived shared) :: r.vars })

end Records

/-- Give a name a value as an alias, as in a shell without variables. -/
def putAlias (name value : Text) (s : Shell α) : Bool × Shell α :=
  let put := setAlias name value { s with vars := [] }
  (put.1, { put.2 with vars := s.vars })

theorem setAlias_eq (name value : Text) (s : Shell α) :
    s.setAlias name value =
      if NameTable.has s.vars name then (false, s.print ("Can't alias \"" ++ name ++ "\", it is a variable\n"))
      else s.putAlias name value := by
  have bare : NameTable.has ([] : NameTable Variable) name = false := rfl
  unfold putAlias setAlias
  rw [bare, if_neg Bool.false_ne_true]
  refine if_congr Iff.rfl rfl ?_
  by_cases long : aliasNameLimit ≤ Text.size name
  · rw [if_pos long, if_pos long]
    rfl
  by_cases command : NameTable.has s.commands name = true
  · simp only [long, command, if_true, if_false]
    rfl
  by_cases known : NameTable.has s.aliases name = true
  · simp only [long, command, known, if_true, if_false, Bool.false_eq_true]
  · simp only [long, command, known, if_false, Bool.false_eq_true]

/-- What changes the entries of one of the tables. -/
inductive Filing (α : Type) where
  | addCommand (name : Text) (action : Action α)
  | removeCommand (name : Text)
  | setAlias (name value : Text)
  | putAlias (name value : Text)
  | removeAlias (name : Text)
  | addVariable (name text : Text) (archived shared : Bool)

namespace Filing

/-- What a shell answers, and the shell afterwards. Removing a command has no answer. -/
def searched : Filing α → Shell α → Bool × Shell α
  | .addCommand name action, s => s.addCommand name action
  | .removeCommand name, s => (true, s.removeCommand name)
  | .setAlias name value, s => s.setAlias name value
  | .putAlias name value, s => s.putAlias name value
  | .removeAlias name, s => s.removeAlias name
  | .addVariable name text archived shared, s => s.addVariable name text archived shared

/-- What tables with an index answer, and the tables afterwards. -/
def indexed : Filing α → IndexedNames α → Bool × IndexedNames α
  | .addCommand name action, t => t.addCommand name action
  | .removeCommand name, t => (true, t.removeCommand name)
  | .setAlias name value, t => t.setAlias name value
  | .putAlias name value, t => t.putAlias name value
  | .removeAlias name, t => t.removeAlias name
  | .addVariable name text archived shared, t => t.addVariable name text archived shared

/-- What is right to answer after what was stored and dropped so far, and what is to be recorded. -/
def recorded : Filing α → Records α → Bool × Records α
  | .addCommand name action, r => r.addCommand name action
  | .removeCommand name, r => (true, r.removeCommand name)
  | .setAlias name value, r => r.setAlias name value
  | .putAlias name value, r => r.putAlias name value
  | .removeAlias name, r => r.removeAlias name
  | .addVariable name text archived shared, r => r.addVariable name text archived shared

/-- The answers to a history and what becomes of the tables in it. -/
def answers {σ : Type} (answer : Filing α → σ → Bool × σ) : List (Filing α) → σ → List Bool × σ
  | [], s => ([], s)
  | filing :: rest, s =>
    let first := answer filing s
    let later := answers answer rest first.2
    (first.1 :: later.1, later.2)

end Filing

/-- A shell and tables with an index that both are what is on record. -/
structure Filed (s : Shell α) (t : IndexedNames α) (r : Records α) : Prop where
  commands : Mapped s.commands t.commands r.commands
  aliases : Mapped s.aliases t.aliases r.aliases
  vars : Mapped s.vars t.vars r.vars

/-- The shell and the tables with an index answer rightly and then are what is on record. -/
structure Answered {β : Type} (s : β × Shell α) (t : β × IndexedNames α) (r : β × Records α) : Prop where
  searched : s.1 = r.1
  indexed : t.1 = r.1
  filed : Filed s.2 t.2 r.2

namespace Filed

variable {s : Shell α} {t : IndexedNames α} {r : Records α}

theorem addCommand (filed : Filed s t r) (name : Text) (action : Action α) :
    Answered (s.addCommand name action) (t.addCommand name action) (r.addCommand name action) := by
  unfold Shell.addCommand IndexedNames.addCommand Records.addCommand
  rw [filed.commands.has_eq, filed.aliases.has_eq, filed.commands.indexed_has_eq, filed.aliases.indexed_has_eq]
  by_cases taken : ((Change.stored name r.commands).isSome || (Change.stored name r.aliases).isSome) = true
  · rw [if_pos taken, if_pos taken, if_pos taken]
    exact ⟨rfl, rfl, filed.commands, filed.aliases, filed.vars⟩
  · have free : Change.stored name r.commands = none := by
      rw [Bool.or_eq_true, not_or, Option.not_isSome_iff_eq_none] at taken
      exact taken.1
    rw [if_neg taken, if_neg taken, if_neg taken]
    exact ⟨rfl, rfl, filed.commands.added free action, filed.aliases, filed.vars⟩

theorem removeCommand (filed : Filed s t r) (name : Text) :
    Answered (true, s.removeCommand name) (true, t.removeCommand name) (true, r.removeCommand name) := by
  unfold Shell.removeCommand IndexedNames.removeCommand Records.removeCommand
  cases there : t.commands.place? name with
  | none =>
    obtain ⟨free, missing⟩ := filed.commands.free there
    rw [free, missing]
    exact ⟨rfl, rfl, filed.commands, filed.aliases, filed.vars⟩
  | some place =>
    obtain ⟨taken, stored⟩ := filed.commands.taken there
    rw [taken, stored]
    exact ⟨rfl, rfl, filed.commands.removed there, filed.aliases, filed.vars⟩

theorem putAlias (filed : Filed s t r) (name value : Text) :
    Answered (s.putAlias name value) (t.putAlias name value) (r.putAlias name value) := by
  unfold Shell.putAlias Shell.setAlias IndexedNames.putAlias Records.putAlias
  have bare : NameTable.has ([] : NameTable Variable) name = false := rfl
  dsimp only
  rw [bare, filed.commands.has_eq, filed.commands.indexed_has_eq]
  by_cases long : aliasNameLimit ≤ Text.size name
  · simp only [long, if_pos, decide_true, Bool.true_or]
    exact ⟨rfl, rfl, filed.commands, filed.aliases, filed.vars⟩
  by_cases command : (Change.stored name r.commands).isSome = true
  · simp only [long, command, if_pos, decide_false, Bool.false_or]
    exact ⟨rfl, rfl, filed.commands, filed.aliases, filed.vars⟩
  simp only [long, command, if_false, decide_false, Bool.false_or]
  cases there : t.aliases.place? name with
  | none =>
    obtain ⟨free, missing⟩ := filed.aliases.free there
    rw [free]
    exact ⟨rfl, rfl, filed.commands, filed.aliases.added missing value, filed.vars⟩
  | some place =>
    rw [(filed.aliases.taken there).1]
    exact ⟨rfl, rfl, filed.commands, filed.aliases.replaced there value, filed.vars⟩

theorem setAlias (filed : Filed s t r) (name value : Text) :
    Answered (s.setAlias name value) (t.setAlias name value) (r.setAlias name value) := by
  rw [setAlias_eq, IndexedNames.setAlias, Records.setAlias, filed.vars.has_eq, filed.vars.indexed_has_eq]
  by_cases taken : (Change.stored name r.vars).isSome = true
  · rw [if_pos taken, if_pos taken, if_pos taken]
    exact ⟨rfl, rfl, filed.commands, filed.aliases, filed.vars⟩
  · rw [if_neg taken, if_neg taken, if_neg taken]
    exact filed.putAlias name value

theorem removeAlias (filed : Filed s t r) (name : Text) :
    Answered (s.removeAlias name) (t.removeAlias name) (r.removeAlias name) := by
  unfold Shell.removeAlias IndexedNames.removeAlias Records.removeAlias
  cases there : t.aliases.place? name with
  | none =>
    obtain ⟨free, missing⟩ := filed.aliases.free there
    rw [free, missing]
    exact ⟨rfl, rfl, filed⟩
  | some place =>
    obtain ⟨taken, stored⟩ := filed.aliases.taken there
    rw [taken, stored]
    exact ⟨rfl, rfl, filed.commands, filed.aliases.removed there, filed.vars⟩

theorem addVariable (filed : Filed s t r) (name text : Text) (archived shared : Bool) :
    Answered (s.addVariable name text archived shared) (t.addVariable name text archived shared)
      (r.addVariable name text archived shared) := by
  unfold Shell.addVariable IndexedNames.addVariable Records.addVariable
  rw [filed.vars.has_eq, filed.vars.indexed_has_eq]
  by_cases taken : (Change.stored name r.vars).isSome = true
  · rw [if_pos taken, if_pos taken, if_pos taken]
    exact ⟨rfl, rfl, filed.commands, filed.aliases, filed.vars⟩
  · rw [if_neg taken, if_neg taken, if_neg taken]
    exact ⟨rfl, rfl, filed.commands, filed.aliases, filed.vars.added (Option.not_isSome_iff_eq_none.1 taken) _⟩

theorem answered (filed : Filed s t r) (filing : Filing α) :
    Answered (filing.searched s) (filing.indexed t) (filing.recorded r) := by
  cases filing with
  | addCommand name action => exact filed.addCommand name action
  | removeCommand name => exact filed.removeCommand name
  | setAlias name value => exact filed.setAlias name value
  | putAlias name value => exact filed.putAlias name value
  | removeAlias name => exact filed.removeAlias name
  | addVariable name text archived shared => exact filed.addVariable name text archived shared

end Filed

/-- From empty tables on, everything is answered rightly, and each table is a map in the order of insertion: a name of
any case has the entry last stored under it, found by search and by index, and every place in the index is that of
its name. -/
theorem tables_are_maps (console : Console) (history : List (Filing α)) :
    Answered (Filing.answers Filing.searched history (Shell.empty console))
      (Filing.answers Filing.indexed history .empty) (Filing.answers Filing.recorded history ⟨[], [], []⟩) := by
  have start : Filed (Shell.empty (α := α) console) .empty ⟨[], [], []⟩ := ⟨.empty, .empty, .empty⟩
  generalize Shell.empty (α := α) console = s, IndexedNames.empty (α := α) = t,
    (⟨[], [], []⟩ : Records α) = r at start ⊢
  induction history generalizing s t r with
  | nil => exact ⟨rfl, rfl, start⟩
  | cons filing rest ih =>
    have first := start.answered filing
    have later := ih _ _ _ first.filed
    exact ⟨congrArg₂ _ first.searched later.searched, congrArg₂ _ first.indexed later.indexed, later.filed⟩

end Shell

end GameHost
