import GameHost.Proofs.Shell.SavedVariables

/-!
The variables of a shell and the announcements of their changes. Whatever is registered, set, set to a number and used as
a command, the number of a variable is the one that its text spells, what a variable was declared as stays, and a request
touches the variable it names alone. A shared variable is announced once for each request that changes its text, as it is
afterwards, and nothing else is announced.
-/
namespace GameHost

namespace NameTable

variable {β : Type} {table : NameTable β} {name : Text}

theorem find?_append (table more : NameTable β) (name : Text) :
    find? (table ++ more) name = (find? table name).or (find? more name) := by
  rw [find?, List.find?_append, find?, find?]

/-- Of different names one at most is found, so that a change of its entry is made in one place. -/
theorem update_of_find? {entry : Text × β} (distinct : Distinct (names table)) (found : find? table name = some entry)
    (change : β → β) : ∃ before after, table = before ++ entry :: after ∧
      update table name change = before ++ (entry.1, change entry.2) :: after := by
  induction table with
  | nil => cases found
  | cons first rest ih =>
    obtain ⟨apart, distinct⟩ := List.pairwise_cons.1 distinct
    by_cases alike : Text.same first.1 name = true
    · have here : first = entry := by simpa [find?, alike] using found
      have free : ∀ other ∈ names rest, Text.same other name = false := by
        intro other member
        rw [Text.same_comm, ← Text.same_congr alike]
        exact apart other member
      have later := update_of_free free change
      refine ⟨[], rest, by rw [here]; rfl, ?_⟩
      unfold update at later ⊢
      rw [List.map_cons, later, if_pos alike, here]
      rfl
    · have later : find? rest name = some entry := by simpa [find?, alike] using found
      obtain ⟨before, after, whole, now⟩ := ih distinct later
      refine ⟨first :: before, after, by rw [whole]; rfl, ?_⟩
      unfold update at now ⊢
      rw [List.map_cons, now, if_neg alike]
      rfl

theorem names_update (table : NameTable β) (name : Text) (change : β → β) :
    names (update table name change) = names table := by
  unfold names update
  rw [List.map_map]
  refine List.map_congr_left fun entry _ => ?_
  rw [Function.comp_apply]
  split <;> rfl

end NameTable

namespace Shell

/-- What is asked of the variables of a shell. -/
inductive VariableRequest where
  | register (name text : Text) (archived shared : Bool)
  | set (name text : Text)
  | setTo (name : Text) (value : Single)
  /-- A line of a number of words that begins with the name, and the second of its words. -/
  | use (name : Text) (count : Nat) (text : Text)

/-- The variables of a table with their names and with what they were declared as. -/
def declarations (vars : NameTable Variable) : List (Text × Bool × Bool) :=
  vars.map fun entry => (entry.1, entry.2.archived, entry.2.shared)

/-- The shared variables of a table whose text was another in an earlier table. -/
def sharedChanges (earlier later : NameTable Variable) : NameTable Variable :=
  ((earlier.zip later).filter fun pair => pair.2.2.shared && pair.1.2.text != pair.2.2.text).map Prod.snd

/-- All names are different, and the number of each variable is the one that its text spells. -/
structure Spelled (vars : NameTable Variable) : Prop where
  distinct : Distinct (NameTable.names vars)
  valued : ∀ entry ∈ vars, entry.2.value = Numeral.toSingle entry.2.text

/-- A variable is what it was registered as. -/
structure Stores (v : Variable) (text : Text) (archived shared : Bool) : Prop where
  value : v.value = Numeral.toSingle text
  text : v.text = text
  archived : v.archived = archived
  shared : v.shared = shared

theorem stores_newVariable (text : Text) (archived shared : Bool) :
    Stores (newVariable text archived shared) text archived shared := ⟨rfl, rfl, rfl, rfl⟩

variable {α : Type}

namespace VariableRequest

def run : VariableRequest → Shell α → Shell α
  | .register name text archived shared, s => (s.addVariable name text archived shared).2
  | .set name text, s => s.setVariable name text
  | .setTo name value, s => s.setVariableTo name value
  | .use name count text, s => (s.useVariable name count text).2

def name : VariableRequest → Text
  | .register name .. | .set name _ | .setTo name _ | .use name .. => name

/-- The text that is asked for, where the variable is there. -/
def text? : VariableRequest → Option Text
  | .register .. => none
  | .set _ text => some text
  | .setTo _ value => some (Numeral.ofSingle value)
  | .use _ count text => if count = 1 then none else some text

/-- The variable that is asked for, where the name is free. -/
def fresh? : VariableRequest → Option (Text × Variable)
  | .register name text archived shared => some (name, newVariable text archived shared)
  | _ => none

/-- What the name of the request has afterwards, given what it had. The same text again leaves the variable as it is. -/
def meant (request : VariableRequest) : Option (Text × Variable) → Option (Text × Variable)
  | none => request.fresh?
  | some (spelling, v) => some (spelling, request.text?.elim v fun text => if v.text = text then v else assign text v)

/-- A request from one shell to another does what it means to do and no more. -/
structure Lawful (request : VariableRequest) (s t : Shell α) : Prop where
  named : NameTable.find? t.vars request.name = request.meant (NameTable.find? s.vars request.name)
  stored : ∀ name text archived shared, request = .register name text archived shared →
    NameTable.find? s.vars name = none → ∃ v, NameTable.find? t.vars name = some (name, v) ∧ Stores v text archived shared
  others : ∀ other, Text.same request.name other = false → NameTable.find? t.vars other = NameTable.find? s.vars other
  declared : declarations s.vars <+: declarations t.vars
  announced : t.announced = s.announced ++ sharedChanges s.vars t.vars
  once : (sharedChanges s.vars t.vars).length ≤ 1

/-- What a request comes to: a word on the console, one more variable, or another text of one of them. -/
inductive Outcome (request : VariableRequest) (s t : Shell α) : Prop where
  | still (vars : t.vars = s.vars) (announced : t.announcements = s.announcements)
      (meant : request.meant (NameTable.find? s.vars request.name) = NameTable.find? s.vars request.name)
  | added {v : Variable} (free : NameTable.has s.vars request.name = false) (fresh : request.fresh? = some (request.name, v))
      (valued : v.value = Numeral.toSingle v.text) (vars : t.vars = s.vars ++ [(request.name, v)])
      (announced : t.announcements = s.announcements)
  | changed {text spelling : Text} {v : Variable} (found : NameTable.find? s.vars request.name = some (spelling, v))
      (asked : request.text? = some text) (other : v.text ≠ text)
      (vars : t.vars = NameTable.update s.vars request.name (assign text))
      (announced : t.announcements = if v.shared then (spelling, assign text v) :: s.announcements else s.announcements)

end VariableRequest

section Changes

variable (earlier later before : NameTable Variable)

theorem sharedChanges_append : sharedChanges (before ++ earlier) (before ++ later) = sharedChanges earlier later := by
  induction before with
  | nil => rfl
  | cons entry before ih => simpa [sharedChanges] using ih

theorem sharedChanges_longer : sharedChanges earlier (earlier ++ later) = [] := by
  have shorter := sharedChanges_append [] later earlier
  rwa [List.append_nil] at shorter

theorem sharedChanges_self : sharedChanges earlier earlier = [] := by
  simpa using sharedChanges_longer earlier []

theorem sharedChanges_middle {text spelling : Text} {v : Variable} (other : v.text ≠ text) :
    sharedChanges (before ++ (spelling, v) :: later) (before ++ (spelling, assign text v) :: later) =
      if v.shared then [(spelling, assign text v)] else [] := by
  have rest := sharedChanges_self later
  unfold sharedChanges at rest
  rw [sharedChanges_append, sharedChanges, List.zip_cons_cons, List.filter_cons]
  cases shared : v.shared <;> simp [assign, shared, other, rest]

end Changes

namespace VariableRequest

variable {request : VariableRequest} {s t : Shell α}

theorem outcome_register (name text : Text) (archived shared : Bool) (s : Shell α) :
    Outcome (.register name text archived shared) s (s.addVariable name text archived shared).2 := by
  unfold addVariable
  split
  · rename_i there
    obtain ⟨entry, found⟩ := Option.isSome_iff_exists.1 there
    exact .still rfl rfl (by rw [VariableRequest.name, found]; rfl)
  · rename_i free
    exact .added (Bool.not_eq_true _ ▸ free) rfl rfl rfl rfl

theorem outcome_setVariable (request : VariableRequest) {text : Text} (asked : request.text? = some text)
    (unfresh : request.fresh? = none) (s : Shell α) : Outcome request s (s.setVariable request.name text) := by
  unfold setVariable
  split
  · rename_i missing
    exact .still rfl rfl (by rw [missing, meant, unfresh])
  · rename_i spelling v found
    split
    · rename_i same
      refine .still rfl rfl ?_
      rw [found, meant, asked, Option.elim_some, if_pos (eq_of_beq same)]
    · rename_i other
      exact .changed found asked (by simpa using other) rfl rfl

theorem outcome (request : VariableRequest) (s : Shell α) : Outcome request s (request.run s) := by
  match request with
  | .register name text archived shared => exact outcome_register name text archived shared s
  | .set name text => exact outcome_setVariable (.set name text) rfl rfl s
  | .setTo name value => exact outcome_setVariable (.setTo name value) rfl rfl s
  | .use name count text =>
    change Outcome _ s (s.useVariable name count text).2
    cases found : NameTable.find? s.vars name with
    | none =>
      rw [useVariable, found]
      exact .still rfl rfl (by rw [VariableRequest.name, found]; rfl)
    | some entry =>
      have there : NameTable.has s.vars name = true := by rw [NameTable.has, found]; rfl
      by_cases alone : count = 1
      · rw [useVariable, found, alone]
        refine .still rfl rfl ?_
        rw [VariableRequest.name, found, meant, text?, if_pos rfl]
        rfl
      · rw [useVariable_set there alone]
        exact outcome_setVariable (.use name count text) (if_neg alone) rfl s

theorem Outcome.spelled (outcome : Outcome request s t) (spelled : Spelled s.vars) : Spelled t.vars := by
  cases outcome with
  | still vars => rwa [vars]
  | added free fresh valued vars =>
    rw [vars]
    constructor
    · have apart := NameTable.has_eq_false_iff.1 free
      unfold NameTable.names at apart ⊢
      rw [List.map_append]
      refine List.pairwise_append.2 ⟨spelled.distinct, List.pairwise_singleton _ _, ?_⟩
      intro other member named last
      rw [List.mem_singleton.1 last]
      exact apart other member
    · intro entry member
      rcases List.mem_append.1 member with old | new
      · exact spelled.valued entry old
      · rw [List.mem_singleton.1 new]
        exact valued
  | changed found asked other vars =>
    rw [vars]
    constructor
    · rw [NameTable.names_update]
      exact spelled.distinct
    · intro entry member
      obtain ⟨old, there, rfl⟩ := List.mem_map.1 member
      split
      · rfl
      · exact spelled.valued old there

theorem Outcome.named (outcome : Outcome request s t) :
    NameTable.find? t.vars request.name = request.meant (NameTable.find? s.vars request.name) := by
  cases outcome with
  | still vars announced meant => rw [vars, meant]
  | added free fresh valued vars =>
    have missing : NameTable.find? s.vars request.name = none := by simpa [NameTable.has] using free
    have same : Text.same request.name request.name = true := Text.same_iff.2 rfl
    rw [vars, NameTable.find?_append, missing, meant, fresh, Option.none_or, NameTable.find?]
    simp [same]
  | changed found asked other vars =>
    have same := NameTable.same_of_find? found
    rw [vars, NameTable.find?_update, found, meant, asked, Option.map_some, if_pos same, Option.elim_some, if_neg other]

theorem Outcome.stored {name text : Text} {archived shared : Bool}
    (outcome : Outcome (.register name text archived shared) s t) (free : NameTable.find? s.vars name = none) :
    ∃ v, NameTable.find? t.vars name = some (name, v) ∧ Stores v text archived shared := by
  have now := outcome.named
  simp only [VariableRequest.name] at now
  rw [free] at now
  exact ⟨_, now, stores_newVariable text archived shared⟩

theorem Outcome.others (outcome : Outcome request s t) {other : Text} (unlike : Text.same request.name other = false) :
    NameTable.find? t.vars other = NameTable.find? s.vars other := by
  cases outcome with
  | still vars => rw [vars]
  | added free fresh valued vars =>
    rw [vars, NameTable.find?_append]
    simp [NameTable.find?, unlike]
  | changed found asked different vars =>
    rw [vars, NameTable.find?_update]
    cases there : NameTable.find? s.vars other with
    | none => rfl
    | some entry =>
      have apart : Text.same entry.1 request.name = false := by
        rw [Text.same_congr (NameTable.same_of_find? there), Text.same_comm]
        exact unlike
      simp [apart]

theorem Outcome.declared (outcome : Outcome request s t) : declarations s.vars <+: declarations t.vars := by
  cases outcome with
  | still vars => simp only [vars, List.prefix_rfl]
  | added free fresh valued vars =>
    rw [vars, declarations, declarations, List.map_append]
    exact List.prefix_append _ _
  | changed found asked other vars =>
    have kept : declarations t.vars = declarations s.vars := by
      rw [vars, declarations, NameTable.update, List.map_map]
      refine List.map_congr_left fun entry _ => ?_
      rw [Function.comp_apply]
      split <;> rfl
    simp only [kept, List.prefix_rfl]

theorem Outcome.lawful (outcome : Outcome request s t) (spelled : Spelled s.vars) : request.Lawful s t := by
  have told : t.announced = s.announced ++ sharedChanges s.vars t.vars ∧ (sharedChanges s.vars t.vars).length ≤ 1 := by
    cases outcome with
    | still vars announced => simp [announced, vars, sharedChanges_self, Shell.announced]
    | added free fresh valued vars announced => simp [announced, vars, sharedChanges_longer, Shell.announced]
    | @changed text spelling v found asked other vars announced =>
      obtain ⟨before, after, whole, now⟩ := NameTable.update_of_find? spelled.distinct found (assign text)
      rw [vars, now, whole, sharedChanges_middle _ _ other, Shell.announced, announced, Shell.announced]
      cases v.shared <;> simp
  refine ⟨outcome.named, ?_, fun _ unlike => outcome.others unlike, outcome.declared, told.1, told.2⟩
  rintro name text archived shared rfl free
  exact outcome.stored free

end VariableRequest

def afterRequests (history : List VariableRequest) (s : Shell α) : Shell α :=
  history.foldl (fun s request => request.run s) s

/-- The changes of shared variables that requests make, one request after another. -/
def changesAlong : List VariableRequest → Shell α → List (Text × Variable)
  | [], _ => []
  | request :: rest, s => sharedChanges s.vars (request.run s).vars ++ changesAlong rest (request.run s)

theorem spelled_afterRequests (history : List VariableRequest) {s : Shell α} (spelled : Spelled s.vars) :
    Spelled (afterRequests history s).vars := by
  induction history generalizing s with
  | nil => exact spelled
  | cons request rest ih => exact ih ((request.outcome s).spelled spelled)

theorem declared_afterRequests (history : List VariableRequest) (s : Shell α) :
    declarations s.vars <+: declarations (afterRequests history s).vars := by
  induction history generalizing s with
  | nil => exact List.prefix_rfl
  | cons request rest ih => exact (request.outcome s).declared.trans (ih _)

theorem announced_afterRequests (history : List VariableRequest) {s : Shell α} (spelled : Spelled s.vars) :
    (afterRequests history s).announced = s.announced ++ changesAlong history s := by
  induction history generalizing s with
  | nil => exact (List.append_nil _).symm
  | cons request rest ih =>
    have outcome := request.outcome s
    have later := ih (outcome.spelled spelled)
    calc (afterRequests (request :: rest) s).announced = (afterRequests rest (request.run s)).announced := rfl
      _ = s.announced ++ changesAlong (request :: rest) s := by
        rw [later, (outcome.lawful spelled).announced, List.append_assoc, changesAlong]

/-- From an empty shell on, the number of every variable is the one its text spells, every request is lawful, a variable
that is registered under a free name is stored as it is given, what was declared stays declared whatever is asked later, and
what was announced is what was changed. -/
theorem variables_consistent (console : Console) (history : List VariableRequest) :
    let s : Shell α := afterRequests history (Shell.empty console)
    Spelled s.vars ∧ (∀ request : VariableRequest, request.Lawful s (request.run s)) ∧
      (∀ later, declarations s.vars <+: declarations (afterRequests later s).vars) ∧
      s.announced = changesAlong history (Shell.empty (α := α) console) := by
  have start : Spelled (Shell.empty (α := α) console).vars := ⟨.nil, by simp [Shell.empty]⟩
  have spelled := spelled_afterRequests history start
  refine ⟨spelled, fun request => (request.outcome _).lawful spelled, fun later => declared_afterRequests later _, ?_⟩
  exact announced_afterRequests history start

end Shell

end GameHost
