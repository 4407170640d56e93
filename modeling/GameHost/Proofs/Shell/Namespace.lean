import GameHost.Proofs.Shell.Names

/-!
One space of names. Whatever is registered, replaced and removed, no two of the commands, aliases and variables of a
shell have the same name. A name is granted exactly if it is free, or is an alias to be given another value; what is
refused changes no table, and what is granted changes one entry of one table.
-/
namespace GameHost

namespace Text

theorem same_comm (a b : Text) : same a b = same b a := by
  rw [Bool.eq_iff_iff, same_iff, same_iff]
  exact eq_comm

theorem same_congr {a b : Text} (alike : same a b = true) (other : Text) : same a other = same b other := by
  rw [Bool.eq_iff_iff, same_iff, same_iff, same_iff.1 alike]

end Text

/-- Names that are all different, in any case. -/
def Distinct (names : List Text) : Prop := names.Pairwise fun a b => Text.same a b = false

theorem distinct_perm {names others : List Text} (perm : names.Perm others) (distinct : Distinct names) :
    Distinct others := by
  refine (perm.pairwise_iff ?_).1 distinct
  intro a b different
  rw [Text.same_comm]
  exact different

namespace NameTable

variable {β : Type}

theorem has_eq_false_iff {table : NameTable β} {name : Text} :
    has table name = false ↔ ∀ other ∈ names table, Text.same other name = false := by
  simp [has, find?, names]

theorem names_erase (table : NameTable β) (name : Text) : List.Sublist (names (erase table name)) (names table) :=
  List.filter_sublist.map Prod.fst

theorem update_of_free {table : NameTable β} {name : Text} (free : ∀ other ∈ names table, Text.same other name = false)
    (change : β → β) : update table name change = table := by
  induction table with
  | nil => rfl
  | cons entry rest ih =>
    have here : Text.same entry.1 name = false := free _ List.mem_cons_self
    have later := ih fun other member => free other (List.mem_cons_of_mem _ member)
    unfold update at later ⊢
    rw [List.map_cons, later, here]
    rfl

theorem find?_update (table : NameTable β) (name other : Text) (change : β → β) :
    find? (update table name change) other =
      (find? table other).map fun entry => if Text.same entry.1 name then (entry.1, change entry.2) else entry := by
  induction table with
  | nil => rfl
  | cons entry rest ih =>
    have spelled : (if Text.same entry.1 name then (entry.1, change entry.2) else entry).1 = entry.1 := by
      split <;> rfl
    unfold find? update at ih ⊢
    rw [List.map_cons, List.find?_cons, List.find?_cons, spelled, ih]
    cases Text.same entry.1 other <;> rfl

theorem same_of_find? {table : NameTable β} {name : Text} {entry : Text × β} (found : find? table name = some entry) :
    Text.same entry.1 name = true := by
  simpa using List.find?_some found

theorem find?_congr {a b : Text} (alike : Text.same a b = true) (table : NameTable β) : find? table a = find? table b := by
  unfold find?
  congr 1
  funext entry
  rw [Text.same_comm entry.1 a, Text.same_comm entry.1 b, Text.same_congr alike]

/-- A table in which a name has an entry now, which stands last or in place of the one that the name had. -/
inductive Entered (table : NameTable β) (name : Text) (entry : β) : NameTable β → Prop where
  | added (free : has table name = false) : Entered table name entry (table ++ [(name, entry)])
  | replaced {before after : NameTable β} {spelling : Text} {old : β} (whole : table = before ++ (spelling, old) :: after)
      (alike : Text.same spelling name = true) : Entered table name entry (before ++ (spelling, entry) :: after)

theorem entered_update {table : NameTable β} {name : Text} (distinct : Distinct (names table))
    (there : has table name = true) (entry : β) : Entered table name entry (update table name fun _ => entry) := by
  induction table with
  | nil => cases there
  | cons first rest ih =>
    obtain ⟨spelling, old⟩ := first
    obtain ⟨apart, distinct⟩ := List.pairwise_cons.1 distinct
    by_cases alike : Text.same spelling name = true
    · have free : ∀ other ∈ names rest, Text.same other name = false := by
        intro other member
        rw [Text.same_comm, ← Text.same_congr alike]
        exact apart other member
      have now : update ((spelling, old) :: rest) name (fun _ => entry) = (spelling, entry) :: rest := by
        have later := update_of_free free fun _ => entry
        unfold update at later ⊢
        rw [List.map_cons, later, if_pos alike]
      rw [now]
      exact @Entered.replaced _ _ _ _ [] rest spelling old rfl alike
    · have elsewhere : has rest name = true := by
        have unlike : Text.same spelling name = false := by simpa using alike
        simpa [has, find?, unlike] using there
      have now : update ((spelling, old) :: rest) name (fun _ => entry) =
          (spelling, old) :: update rest name fun _ => entry := by
        unfold update
        rw [List.map_cons, if_neg alike]
      rw [now]
      generalize update rest name (fun _ => entry) = updated at ih
      cases ih distinct elsewhere with
      | added free =>
        rw [free] at elsewhere
        cases elsewhere
      | replaced whole same =>
        rw [whole]
        exact @Entered.replaced _ _ _ _ ((spelling, old) :: _) _ _ _ rfl same

end NameTable

namespace Shell

variable {α : Type}

def names (s : Shell α) : List Text := NameTable.names s.commands ++ NameTable.names s.aliases ++ NameTable.names s.vars

/-- The commands, aliases and variables of the one are those of the other. -/
structure SameNames (s t : Shell α) : Prop where
  commands : t.commands = s.commands
  aliases : t.aliases = s.aliases
  vars : t.vars = s.vars

/-- What is asked of the names of a shell. -/
inductive Naming (α : Type) where
  | command (name : Text) (action : Action α)
  | setAlias (name value : Text)
  /-- The alias command, on a line of any text. -/
  | aliasLine (text : Text) (source : Source)
  | quantity (name text : Text) (archived shared : Bool)
  | removeCommand (name : Text)
  | removeAlias (name : Text)

namespace Naming

/-- Whether it is granted, and the shell afterwards. A line of the alias command without arguments asks for nothing. -/
def answer : Naming α → Shell α → Bool × Shell α
  | .command name action, s => s.registerCommand name action
  | .setAlias name value, s => s.setAlias name value
  | .aliasLine text source, s =>
    let s := s.accept text source
    (s.line.count != 1 && (s.setAlias (s.line.word 1) (s.line.wordsFrom 2 ++ "\n")).1, s.runAlias)
  | .quantity name text archived shared, s => s.registerVariable name text archived shared
  | .removeCommand name, s => (true, s.removeCommand name)
  | .removeAlias name, s => s.removeAlias name

/-- An alias can take a name that is short and that no command and no variable has. -/
def AliasAllowed (s : Shell α) (name : Text) : Prop :=
  NameTable.has s.commands name = false ∧ NameTable.has s.vars name = false ∧ Text.size name < aliasNameLimit

def Allowed : Naming α → Shell α → Prop
  | .command name _, s => s.Free name
  | .setAlias name _, s => AliasAllowed s name
  | .aliasLine text _, s => (Line.ofText text).count ≠ 1 ∧ AliasAllowed s ((Line.ofText text).word 1)
  | .quantity name _ _ _, s => s.Free name
  | .removeCommand _, _ => True
  | .removeAlias name, s => NameTable.has s.aliases name = true

/-- The one change of the tables that is made where the naming is granted. -/
def Granted : Naming α → Shell α → Shell α → Prop
  | .command name action, s, t => SameNames { s with commands := s.commands ++ [(name, action)] } t
  | .setAlias name value, s, t =>
    ∃ aliases, NameTable.Entered s.aliases name value aliases ∧ SameNames { s with aliases } t
  | .aliasLine text _, s, t => ∃ aliases, NameTable.Entered s.aliases ((Line.ofText text).word 1)
      ((Line.ofText text).wordsFrom 2 ++ "\n") aliases ∧ SameNames { s with aliases } t
  | .quantity name text archived shared, s, t =>
    SameNames { s with vars := s.vars ++ [(name, newVariable text archived shared)] } t
  | .removeCommand name, s, t => SameNames { s with commands := NameTable.erase s.commands name } t
  | .removeAlias name, s, t => SameNames { s with aliases := NameTable.erase s.aliases name } t

/-- A naming is granted exactly if it is allowed; then it makes its one change, and otherwise none. -/
structure Fair (naming : Naming α) (s : Shell α) : Prop where
  granted_iff : (naming.answer s).1 = true ↔ naming.Allowed s
  granted : (naming.answer s).1 = true → naming.Granted s (naming.answer s).2
  refused : (naming.answer s).1 = false → SameNames s (naming.answer s).2

end Naming

theorem SameNames.refl (s : Shell α) : SameNames s s := ⟨rfl, rfl, rfl⟩

theorem SameNames.print (text : Text) (s : Shell α) : SameNames s (s.print text) := ⟨rfl, rfl, rfl⟩

theorem SameNames.names {s t : Shell α} (same : SameNames s t) : t.names = s.names := by
  rw [Shell.names, same.commands, same.aliases, same.vars, Shell.names]

theorem free_iff {s : Shell α} {name : Text} : s.Free name ↔ ∀ other ∈ s.names, Text.same other name = false := by
  simp only [Free, NameTable.has_eq_false_iff, names, List.mem_append, or_imp, forall_and, and_assoc]

namespace Naming

variable {naming : Naming α} {s t : Shell α}

theorem Fair.of_granted (allowed : naming.Allowed s) (ran : naming.answer s = (true, t)) (now : naming.Granted s t) :
    naming.Fair s := by
  constructor
  · simp [ran, allowed]
  · simpa [ran] using now
  · simp [ran]

theorem Fair.of_refused (unallowed : ¬ naming.Allowed s) (ran : naming.answer s = (false, t)) (same : SameNames s t) :
    naming.Fair s := by
  constructor
  · simp [ran, unallowed]
  · simp [ran]
  · simpa [ran] using same

theorem fair_command (name : Text) (action : Action α) (s : Shell α) : (Naming.command name action).Fair s := by
  by_cases free : s.Free name
  · refine .of_granted free (t := { s with commands := s.commands ++ [(name, action)] }) ?_ (.refl _)
    obtain ⟨commands, aliases, vars⟩ := free
    simp [answer, registerCommand, addCommand, commands, aliases, vars, NameTable.add]
  · obtain ⟨text, ran⟩ : ∃ text, s.registerCommand name action = (false, s.print text) := by
      unfold registerCommand addCommand
      split
      · exact ⟨_, rfl⟩
      · split
        · exact ⟨_, rfl⟩
        · rename_i vars others
          simp only [Bool.or_eq_true, not_or, Bool.not_eq_true] at vars others
          exact absurd ⟨others.1, others.2, vars⟩ free
    exact .of_refused free ran (.print text s)

theorem fair_quantity (name text : Text) (archived shared : Bool) (s : Shell α) :
    (Naming.quantity name text archived shared).Fair s := by
  by_cases free : s.Free name
  · refine .of_granted free
      (t := { s with vars := s.vars ++ [(name, newVariable text archived shared)] }) ?_ (.refl _)
    obtain ⟨commands, aliases, vars⟩ := free
    simp [answer, registerVariable, addVariable, commands, aliases, vars, NameTable.add]
  · obtain ⟨text', ran⟩ : ∃ text', s.registerVariable name text archived shared = (false, s.print text') := by
      unfold registerVariable addVariable
      split
      · exact ⟨_, rfl⟩
      · split
        · exact ⟨_, rfl⟩
        · rename_i others vars
          simp only [Bool.or_eq_true, not_or, Bool.not_eq_true] at vars others
          exact absurd ⟨others.1, others.2, vars⟩ free
    exact .of_refused free ran (.print text' s)

theorem setAlias_of_allowed {name : Text} (allowed : AliasAllowed s name) (distinct : Distinct (NameTable.names s.aliases))
    (value : Text) : ∃ aliases, NameTable.Entered s.aliases name value aliases ∧
      s.setAlias name value = (true, { s with aliases }) := by
  obtain ⟨commands, vars, short⟩ := allowed
  have fits : ¬ aliasNameLimit ≤ Text.size name := Nat.not_le.2 short
  unfold Shell.setAlias
  rw [vars, if_neg Bool.false_ne_true, if_neg fits, commands, if_neg Bool.false_ne_true]
  cases there : NameTable.has s.aliases name with
  | true => exact ⟨_, NameTable.entered_update distinct there value, rfl⟩
  | false => exact ⟨_, .added there, rfl⟩

theorem setAlias_of_not_allowed {name : Text} (unallowed : ¬ AliasAllowed s name) (value : Text) :
    ∃ text, s.setAlias name value = (false, s.print text) := by
  unfold Shell.setAlias
  split
  · exact ⟨_, rfl⟩
  · split
    · exact ⟨_, rfl⟩
    · split
      · exact ⟨_, rfl⟩
      · rename_i vars long commands
        exact absurd ⟨by simpa using commands, by simpa using vars, Nat.not_le.1 long⟩ unallowed

theorem fair_alias (name value : Text) (distinct : Distinct (NameTable.names s.aliases)) :
    (Naming.setAlias name value).Fair s := by
  by_cases allowed : AliasAllowed s name
  · obtain ⟨aliases, entered, ran⟩ := setAlias_of_allowed allowed distinct value
    exact .of_granted allowed ran ⟨aliases, entered, .refl _⟩
  · obtain ⟨text, ran⟩ := setAlias_of_not_allowed allowed value
    exact .of_refused allowed ran (.print text s)

theorem sameNames_foldl_print {β : Type} (entries : List β) (describe : β → Text) (s : Shell α) :
    SameNames s (entries.foldl (fun s entry => s.print (describe entry)) s) := by
  induction entries generalizing s with
  | nil => exact .refl s
  | cons entry rest ih =>
    have later := ih (s.print (describe entry))
    exact ⟨later.commands, later.aliases, later.vars⟩

theorem fair_aliasLine (text : Text) (source : Source) (distinct : Distinct (NameTable.names s.aliases)) :
    (Naming.aliasLine text source).Fair s := by
  let m := s.accept text source
  have line : m.line = Line.ofText text := rfl
  have distinct : Distinct (NameTable.names m.aliases) := distinct
  by_cases bare : (Line.ofText text).count = 1
  · have listed : m.runAlias = m.aliases.foldl (fun s entry => s.print (entry.1 ++ " : " ++ entry.2))
        (m.print "Current alias commands:\n") := by
      simp [runAlias, line, bare]
    refine .of_refused (t := m.runAlias) (fun allowed => allowed.1 bare) ?_ ?_
    · simp [answer, m, line, bare]
    · rw [listed]
      have same := sameNames_foldl_print m.aliases (fun entry => entry.1 ++ " : " ++ entry.2)
        (m.print "Current alias commands:\n")
      exact ⟨same.commands, same.aliases, same.vars⟩
  · let name := (Line.ofText text).word 1
    let value := (Line.ofText text).wordsFrom 2 ++ "\n".toList
    have ran : (Naming.aliasLine text source).answer s = m.setAlias name value := by
      have set : m.runAlias = (m.setAlias name value).2 := by
        simp [runAlias, line, bare, name, value]
      have asked : ((Line.ofText text).count != 1) = true := by simpa using bare
      rw [answer, show (s.accept text source).runAlias = _ from set, line, asked, Bool.true_and]
    by_cases allowed : AliasAllowed m name
    · obtain ⟨aliases, entered, now⟩ := setAlias_of_allowed allowed distinct value
      exact .of_granted ⟨bare, allowed⟩ (ran.trans now) ⟨aliases, entered, ⟨rfl, rfl, rfl⟩⟩
    · obtain ⟨told, now⟩ := setAlias_of_not_allowed allowed value
      exact .of_refused (fun both => allowed both.2) (ran.trans now) ⟨rfl, rfl, rfl⟩

theorem fair_removeCommand (name : Text) (s : Shell α) : (Naming.removeCommand name).Fair s := by
  refine .of_granted trivial (t := s.removeCommand name) rfl ?_
  unfold Shell.removeCommand
  split
  · exact .refl _
  · rename_i missing
    have free : ∀ other ∈ NameTable.names s.commands, Text.same other name = false :=
      NameTable.has_eq_false_iff.1 (by simpa using missing)
    refine ⟨Eq.symm ?_, rfl, rfl⟩
    refine List.filter_eq_self.2 fun entry member => ?_
    simp [free entry.1 (List.mem_map_of_mem member)]

theorem fair_removeAlias (name : Text) (s : Shell α) : (Naming.removeAlias name).Fair s := by
  cases there : NameTable.has s.aliases name with
  | true =>
    refine .of_granted (t := { s with aliases := NameTable.erase s.aliases name }) there ?_ (.refl _)
    simp [answer, Shell.removeAlias, there]
  | false =>
    refine .of_refused (t := s) (by simp [Allowed, there]) ?_ (.refl s)
    simp [answer, Shell.removeAlias, there]

theorem fair (naming : Naming α) (distinct : Distinct s.names) : naming.Fair s := by
  have aliases : Distinct (NameTable.names s.aliases) := by
    unfold Shell.names at distinct
    exact (List.pairwise_append.1 (List.pairwise_append.1 distinct).1).2.1
  cases naming with
  | command name action => exact fair_command name action s
  | setAlias name value => exact fair_alias name value aliases
  | aliasLine text source => exact fair_aliasLine text source aliases
  | quantity name text archived shared => exact fair_quantity name text archived shared s
  | removeCommand name => exact fair_removeCommand name s
  | removeAlias name => exact fair_removeAlias name s

theorem distinct_of_free {name : Text} (distinct : Distinct s.names) (free : s.Free name) {names : List Text}
    (perm : (name :: s.names).Perm names) : Distinct names := by
  refine distinct_perm perm (List.pairwise_cons.2 ⟨?_, distinct⟩)
  intro other member
  rw [Text.same_comm]
  exact free_iff.1 free other member

theorem distinct_of_entered {name value : Text} {aliases : NameTable Text} (allowed : AliasAllowed s name)
    (distinct : Distinct s.names) (entered : NameTable.Entered s.aliases name value aliases) :
    Distinct (Shell.names { s with aliases }) := by
  cases entered with
  | added free =>
    refine distinct_of_free distinct ⟨allowed.1, free, allowed.2.1⟩ ?_
    have perm : (name :: (NameTable.names s.commands ++ NameTable.names s.aliases ++ NameTable.names s.vars)).Perm
        (NameTable.names s.commands ++ NameTable.names s.aliases ++ name :: NameTable.names s.vars) :=
      List.perm_middle.symm
    simpa [Shell.names, NameTable.names] using perm
  | replaced whole alike =>
    simpa [Shell.names, NameTable.names, whole] using distinct

theorem Granted.distinct (naming : Naming α) (distinct : Distinct s.names) (allowed : naming.Allowed s)
    (granted : naming.Granted s t) : Distinct t.names := by
  cases naming with
  | command name action =>
    rw [SameNames.names granted]
    refine distinct_of_free distinct allowed ?_
    have perm : (name :: (NameTable.names s.commands ++ (NameTable.names s.aliases ++ NameTable.names s.vars))).Perm
        (NameTable.names s.commands ++ name :: (NameTable.names s.aliases ++ NameTable.names s.vars)) :=
      List.perm_middle.symm
    simpa [Shell.names, NameTable.names] using perm
  | setAlias name value =>
    obtain ⟨aliases, entered, same⟩ := granted
    rw [same.names]
    exact distinct_of_entered allowed distinct entered
  | aliasLine text source =>
    obtain ⟨aliases, entered, same⟩ := granted
    rw [same.names]
    exact distinct_of_entered allowed.2 distinct entered
  | quantity name text archived shared =>
    rw [SameNames.names granted]
    refine distinct_of_free distinct allowed ?_
    have perm : (name :: s.names).Perm (s.names ++ [name]) :=
      (List.perm_append_singleton name s.names).symm
    simpa [Shell.names, NameTable.names] using perm
  | removeCommand name =>
    rw [SameNames.names granted]
    have fewer := NameTable.names_erase s.commands name
    exact distinct.sublist ((fewer.append (.refl _)).append (.refl _))
  | removeAlias name =>
    rw [SameNames.names granted]
    have fewer := NameTable.names_erase s.aliases name
    exact distinct.sublist (((List.Sublist.refl _).append fewer).append (.refl _))

theorem answer_distinct (naming : Naming α) (distinct : Distinct s.names) : Distinct (naming.answer s).2.names := by
  have fair := fair naming distinct
  cases answered : (naming.answer s).1 with
  | true => exact Granted.distinct naming distinct (fair.granted_iff.1 answered) (fair.granted answered)
  | false =>
    rw [(fair.refused answered).names]
    exact distinct

end Naming

def afterNamings (history : List (Naming α)) (s : Shell α) : Shell α :=
  history.foldl (fun s naming => (naming.answer s).2) s

/-- From an empty shell on, all names are different, and every naming is granted or refused fairly. -/
theorem one_namespace (console : Console) (history : List (Naming α)) :
    Distinct (afterNamings history (Shell.empty console)).names ∧
      ∀ naming : Naming α, naming.Fair (afterNamings history (Shell.empty console)) := by
  have distinct : Distinct (afterNamings history (Shell.empty console)).names := by
    have start : Distinct (Shell.empty (α := α) console).names := .nil
    generalize Shell.empty (α := α) console = s at start ⊢
    induction history generalizing s with
    | nil => exact start
    | cons naming rest ih => exact ih _ (Naming.answer_distinct naming start)
  exact ⟨distinct, fun naming => Naming.fair naming distinct⟩

end Shell

end GameHost
