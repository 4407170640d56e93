import GameHost.Proofs.Glob
import GameHost.Proofs.Shell.Namespace

/-!
The list of the aliases. What is listed is always asked for, every alias on a line of its own and in the order of the
table; but an alias with a `*` in its name can be missing, the pattern that all names have among them.
-/
namespace GameHost.Shell
open Glob (Describes Taken matchesText star)

variable {α : Type}

/-- Lines of the commands that give an alias a value and that delete one, whatever their words are. -/
inductive AliasLines (start : Shell α) : Shell α → Prop where
  | none : AliasLines start start
  | set {s : Shell α} (before : AliasLines start s) (text : Text) (source : Source) :
      AliasLines start (s.accept text source).runAlias
  | delete {s : Shell α} (before : AliasLines start s) (text : Text) (source : Source) :
      AliasLines start (s.accept text source).runUnalias

/-- Whether a name is asked for: by the pattern that describes it, or, as all are, by none. -/
def Asked (pattern : Option Text) (name : Text) : Prop :=
  ∀ text ∈ pattern, Describes (Text.encode text) (Text.encode name)

instance (pattern : Option Text) (name : Text) : Decidable (Asked pattern name) :=
  match pattern with
  | none => .isTrue (by simp [Asked])
  | some text => decidable_of_iff (Describes (Text.encode text) (Text.encode name)) (by simp [Asked])

/-- The aliases that are asked for. -/
def asked (pattern : Option Text) (s : Shell α) : NameTable Text := s.aliases.filter fun entry => Asked pattern entry.1

def listedLine (entry : Text × Text) : Text := entry.1 ++ " : " ++ Text.trimEnd entry.2 ++ "\n"

def countLine (total matching : Nat) : Text :=
  Text.ofNat total ++ " aliases, " ++ Text.ofNat matching ++ " matching\n"

/-- The answer to a command that lists some of the aliases: how many there are and how many are listed, with a line
printed for each of these and one for the numbers. -/
def listing (listed : NameTable Text) (s : Shell α) : (Nat × Nat) × Shell α :=
  let lines := listed.map listedLine ++ [countLine s.aliases.length listed.length]
  ((s.aliases.length, listed.length), lines.foldl (fun s line => s.print line) s)

variable {start s : Shell α} {pattern : Option Text}

theorem listAliases_eq (pattern : Option Text) (s : Shell α) :
    s.listAliases pattern = listing (s.aliases.filter fun entry => matchesText (pattern.getD ['*']) entry.1) s := by
  have words : " aliases, ".toList = " ".toList ++ "aliases".toList ++ ", ".toList := by decide
  simp only [listAliases, list, listing, listedLine, countLine, words, List.foldl_append, List.foldl_map, List.append_assoc]
  rfl

theorem AliasLines.distinct (lines : AliasLines start s) (distinct : Distinct start.names) : Distinct s.names := by
  induction lines with
  | none => exact distinct
  | set _ text source ih => exact Naming.answer_distinct (.aliasLine text source) ih
  | @delete s _ text source ih =>
    let m := s.accept text source
    have there : Distinct m.names := ih
    change Distinct m.runUnalias.names
    unfold runUnalias
    split
    · exact there
    · have removed := Naming.answer_distinct (.removeAlias (m.line.word 1)) there
      rw [Naming.answer] at removed
      cases outcome : m.removeAlias (m.line.word 1) with
      | mk was t =>
        rw [outcome] at removed
        cases was <;> exact removed

theorem asked_of_matches {name : Text} (found : matchesText (pattern.getD ['*']) name = true) : Asked pattern name := by
  rintro text ⟨⟩
  exact ((Glob.matchesText_iff text name).1 found).describes

/-- What is listed is a part of what is asked for, so that it is all of it if their numbers are the same. -/
theorem listed_sublist (pattern : Option Text) (s : Shell α) :
    List.Sublist (s.aliases.filter fun entry => matchesText (pattern.getD ['*']) entry.1) (asked pattern s) := by
  have both : (s.aliases.filter fun entry => matchesText (pattern.getD ['*']) entry.1) =
      (asked pattern s).filter fun entry => matchesText (pattern.getD ['*']) entry.1 := by
    rw [asked, List.filter_filter]
    congr 1
    funext entry
    cases found : matchesText (pattern.getD ['*']) entry.1 with
    | true => simp [asked_of_matches found]
    | false => rfl
  rw [both]
  exact List.filter_sublist

theorem listing_asked_iff (pattern : Option Text) (s : Shell α) : s.listAliases pattern = listing (asked pattern s) s ↔
    ∀ name ∈ NameTable.names s.aliases, Asked pattern name →
      Taken (Text.encode (pattern.getD ['*'])) (Text.encode name) := by
  rw [listAliases_eq]
  constructor
  · intro same name member wanted
    have count : (s.aliases.filter fun entry => matchesText (pattern.getD ['*']) entry.1).length =
        (asked pattern s).length := congrArg (fun answer => answer.1.2) same
    obtain ⟨entry, there, rfl⟩ := List.mem_map.1 member
    have found : entry ∈ asked pattern s := List.mem_filter.2 ⟨there, by simpa using wanted⟩
    rw [← (listed_sublist pattern s).eq_of_length count] at found
    exact (Glob.matchesText_iff _ _).1 (List.mem_filter.1 found).2
  · intro taken
    refine congrArg (listing · s) (List.filter_congr fun entry member => ?_)
    rw [Bool.eq_iff_iff, Glob.matchesText_iff, decide_eq_true_eq]
    constructor
    · intro found
      exact asked_of_matches ((Glob.matchesText_iff _ _).2 found)
    · exact taken entry.1 (List.mem_map_of_mem member)

/-- Whatever lines made and deleted the aliases, those that are asked for are listed, each once and in the order of the
table, exactly if the pattern is taken for the name of each. Without a pattern this leaves out the names that go on after
a `*` at their beginning, and there is a pattern that leaves out an alias it describes exactly if some name has a `*`
in it. -/
theorem aliases_listed_iff (distinct : Distinct start.names) (lines : AliasLines start s) :
    Distinct (NameTable.names s.aliases) ∧
    (∀ pattern, ∃ listed, List.Sublist listed (asked pattern s) ∧ s.listAliases pattern = listing listed s) ∧
    (∀ pattern, s.listAliases pattern = listing (asked pattern s) s ↔ ∀ name ∈ NameTable.names s.aliases,
      Asked pattern name → Taken (Text.encode (pattern.getD ['*'])) (Text.encode name)) ∧
    (s.listAliases none = listing s.aliases s ↔ ∀ name ∈ NameTable.names s.aliases,
      (Text.encode name).head? = some star → Text.encode name = [star]) ∧
    ((∀ pattern, s.listAliases (some pattern) = listing (asked (some pattern) s) s) ↔
      ∀ name ∈ NameTable.names s.aliases, star ∉ Text.encode name) := by
  have apart : Distinct (NameTable.names s.aliases) := by
    have all := lines.distinct distinct
    unfold names at all
    exact (List.pairwise_append.1 (List.pairwise_append.1 all).1).2.1
  refine ⟨apart, fun pattern => ⟨_, listed_sublist pattern s, listAliases_eq pattern s⟩,
    fun pattern => listing_asked_iff pattern s, ?_, ?_⟩
  · have all : asked none s = s.aliases := List.filter_eq_self.2 fun entry _ => by simp [Asked]
    have everything : Text.encode ['*'] = [star] := rfl
    have complete := listing_asked_iff none s
    rw [all] at complete
    rw [complete]
    refine forall₂_congr fun name _ => ?_
    rw [← Glob.taken_everything_iff, Option.getD_none, everything]
    simp [Asked]
  · constructor
    · intro always name member
      refine (Glob.always_taken_iff name).1 fun pattern describes => ?_
      exact (listing_asked_iff (some pattern) s).1 (always pattern) name member (by simpa [Asked] using describes)
    · intro clean pattern
      refine (listing_asked_iff (some pattern) s).2 fun name member wanted => ?_
      exact (wanted pattern rfl).taken (clean name member)

/-- A shell of its standard commands only. -/
def standardShell : Shell Empty := (Shell.empty Console.captured).registerStandard

/-- The shell with an alias whose name begins with a `*`. -/
def starredShell : Shell Empty := (standardShell.accept "alias *a echo" .player).runAlias

theorem starred_alias_unlisted : Distinct standardShell.names ∧ AliasLines standardShell starredShell ∧
    (starredShell.listAliases none).1 = (1, 0) ∧ starredShell.listAliases none ≠ listing starredShell.aliases starredShell := by
  have distinct : Distinct standardShell.names := by
    unfold Distinct
    decide +kernel
  have lines : AliasLines standardShell starredShell := AliasLines.none.set "alias *a echo" .player
  obtain ⟨_, _, _, complete_iff, _⟩ := aliases_listed_iff distinct lines
  refine ⟨distinct, lines, by decide +kernel, fun complete => ?_⟩
  have member : "*a".toList ∈ NameTable.names starredShell.aliases := by decide +kernel
  exact absurd (complete_iff.1 complete _ member rfl) (by decide)

end GameHost.Shell
