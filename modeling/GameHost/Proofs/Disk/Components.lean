import GameHost.Proofs.Disk.Entries

/-!
The components of a path: the folder it starts from, and then the steps of it. A path that is joined to a folder has the
folder's components in front, unless it is absolute; then the folder is forgotten.
-/
namespace GameHost.Path

inductive Component where
  | root
  | here
  | up
  | name (text : Text)
  deriving DecidableEq, Repr

def Component.ofStep (step : Text) : Component := if step = ['.', '.'] then .up else .name step

/-- What a path begins with, a slash or a single point. Points further on name nothing, as empty parts do. -/
def opening (path : Path) : List Component :=
  if isAbsolute path then [.root] else if (parts path).head? = some ['.'] then [.here] else []

def components (path : Path) : List Component := opening path ++ (steps path).map .ofStep

/-- The path has the components of the folder, and behind them none that goes up. -/
def Inside (folder path : Path) : Prop := ∃ below, components path = components folder ++ below ∧ Component.up ∉ below

variable {base path : Path}

theorem parts_ne_nil (path : Path) : parts path ≠ [] := by
  cases path with
  | nil => simp [parts]
  | cons c rest =>
    unfold parts
    split
    · simp
    · split <;> simp

theorem parts_append_slash (front path : Path) : parts (front ++ '/' :: path) = parts front ++ parts path := by
  induction front with
  | nil => rfl
  | cons c front ih =>
    rw [List.cons_append, parts, parts, ih]
    cases found : parts front with
    | nil => exact absurd found (parts_ne_nil front)
    | cons part later =>
      split
      · rfl
      · rfl

/-- The first part is what the path begins with, and every other one stands somewhere in it. -/
theorem parts_infix (path : Path) : ∃ first later, parts path = first :: later ∧ first <+: path ∧
    ∀ part ∈ later, part <:+: path := by
  induction path with
  | nil => exact ⟨[], [], rfl, List.prefix_rfl, by simp⟩
  | cons c rest ih =>
    obtain ⟨first, later, whole, front, others⟩ := ih
    by_cases slash : (c == '/') = true
    · refine ⟨[], parts rest, by rw [parts, if_pos slash], List.nil_prefix, ?_⟩
      intro part member
      rw [whole] at member
      rcases List.mem_cons.1 member with rfl | member
      · exact front.isInfix.trans (List.suffix_cons c rest).isInfix
      · exact (others part member).trans (List.suffix_cons c rest).isInfix
    · refine ⟨c :: first, later, by rw [parts, if_neg slash, whole], ?_, ?_⟩
      · exact List.cons_prefix_cons.2 ⟨rfl, front⟩
      · intro part member
        exact (others part member).trans (List.suffix_cons c rest).isInfix

theorem infix_of_mem_parts {part : Text} (member : part ∈ parts path) : part <:+: path := by
  obtain ⟨first, later, whole, front, others⟩ := parts_infix path
  rw [whole] at member
  rcases List.mem_cons.1 member with rfl | member
  · exact front.isInfix
  · exact others part member

theorem join_of_absolute (absolute : isAbsolute path = true) (base : Path) : join base path = path := by
  simp [join, absolute]

theorem join_empty (path : Path) : join [] path = path := by simp [join]

/-- A relative path is put behind the folder with one slash between them, which the folder may end with itself. -/
theorem join_of_relative (relative : isAbsolute path = false) (nonempty : base ≠ []) :
    ∃ front idle, join base path = front ++ '/' :: path ∧ parts base = parts front ++ idle ∧
      (∀ part ∈ idle, isIdle part = true) := by
  have written : base.isEmpty = false := by simpa using nonempty
  by_cases ends : base.getLast? = some '/'
  · obtain ⟨front, rfl⟩ := List.getLast?_eq_some_iff.1 ends
    refine ⟨front, [[]], by simp [join, relative], parts_append_slash front [], ?_⟩
    simp [isIdle]
  · exact ⟨base, [], by simp [join, relative, written, ends], (List.append_nil _).symm, by simp⟩

theorem isAbsolute_join (relative : isAbsolute path = false) (base : Path) :
    isAbsolute (join base path) = isAbsolute base := by
  cases base with
  | nil => rw [join_empty, relative]; rfl
  | cons c rest =>
    simp only [join, relative, List.isEmpty_cons, Bool.or_false, if_neg Bool.false_ne_true]
    split <;> rfl

theorem steps_join (relative : isAbsolute path = false) (base : Path) :
    steps (join base path) = steps base ++ steps path := by
  by_cases nonempty : base = []
  · rw [nonempty, join_empty]
    rfl
  · obtain ⟨front, idle, joined, whole, idles⟩ := join_of_relative relative nonempty
    have none : idle.filter (! isIdle ·) = [] := List.filter_eq_nil_iff.2 (by simpa using idles)
    rw [joined, steps, steps, steps, parts_append_slash, whole, List.filter_append, List.filter_append, none,
      List.append_nil]

theorem opening_join (relative : isAbsolute path = false) (nonempty : base ≠ []) :
    opening (join base path) = opening base := by
  obtain ⟨front, idle, joined, whole, _⟩ := join_of_relative relative nonempty
  have first : (parts (join base path)).head? = (parts base).head? := by
    obtain ⟨part, later, opened⟩ := List.exists_cons_of_ne_nil (parts_ne_nil front)
    rw [joined, parts_append_slash, whole, opened]
    rfl
  rw [opening, opening, isAbsolute_join relative, first]

theorem components_join (relative : isAbsolute path = false) (nonempty : base ≠ []) :
    components (join base path) = components base ++ (steps path).map .ofStep := by
  rw [components, opening_join relative nonempty, steps_join relative, List.map_append, ← List.append_assoc, components]

theorem up_not_mem_steps (calm : ['.', '.'] ∉ parts path) : Component.up ∉ (steps path).map .ofStep := by
  intro member
  obtain ⟨step, there, up⟩ := List.mem_map.1 member
  have points : step = ['.', '.'] := by
    unfold Component.ofStep at up
    split at up
    · assumption
    · cases up
  rw [points] at there
  exact calm (List.mem_filter.1 there).1

theorem up_not_mem_components (calm : ['.', '.'] ∉ parts path) : Component.up ∉ components path := by
  unfold components opening
  have steps := up_not_mem_steps calm
  split
  · simpa using steps
  · split <;> simpa using steps

/-- Where no part goes up, a joined path stays below the folder if it is relative, or has the folder in front itself. -/
theorem inside_join_iff (calm : ['.', '.'] ∉ parts path) (base : Path) :
    Inside base (join base path) ↔ isAbsolute path = false ∨ components base <+: components path := by
  cases absolute : isAbsolute path with
  | true =>
    rw [join_of_absolute absolute]
    constructor
    · rintro ⟨below, whole, _⟩
      exact .inr ⟨below, whole.symm⟩
    · rintro (relative | ⟨below, whole⟩)
      · cases relative
      · refine ⟨below, whole.symm, fun member => up_not_mem_components calm ?_⟩
        rw [← whole]
        exact List.mem_append_right _ member
  | false =>
    refine ⟨fun _ => .inl rfl, fun _ => ?_⟩
    by_cases nonempty : base = []
    · rw [nonempty, join_empty]
      exact ⟨components path, rfl, up_not_mem_components calm⟩
    · exact ⟨_, components_join absolute nonempty, up_not_mem_steps calm⟩

theorem landing_go_append (here : Place) (front parts : List Text) :
    landing.go here (front ++ parts) = landing.go (landing.go here front) parts := by
  induction front generalizing here with
  | nil => rfl
  | cons part rest ih =>
    rw [List.cons_append, landing.go, landing.go]
    split
    · exact ih here
    · split
      · exact ih _
      · exact ih _

theorem landing_go_idle {here : Place} {parts : List Text} (idles : ∀ part ∈ parts, isIdle part = true) :
    landing.go here parts = here := by
  induction parts with
  | nil => rfl
  | cons part rest ih =>
    rw [landing.go, if_pos (idles part List.mem_cons_self)]
    exact ih fun other member => idles other (List.mem_cons_of_mem _ member)

theorem prefix_landing_go {parts : List Text} (calm : ['.', '.'] ∉ parts) (here : Place) :
    here <+: landing.go here parts := by
  induction parts generalizing here with
  | nil => exact List.prefix_rfl
  | cons part rest ih =>
    have later := ih fun member => calm (List.mem_cons_of_mem _ member)
    have other : ¬ (part == ['.', '.']) = true := by
      rintro points
      rw [eq_of_beq points] at calm
      exact calm List.mem_cons_self
    rw [landing.go, if_neg other]
    split
    · exact later here
    · exact (List.prefix_append here [part]).trans (later _)

/-- A relative path that never goes up leads to a place below the one that its folder leads to. -/
theorem prefix_landing_join (relative : isAbsolute path = false) (calm : ['.', '.'] ∉ parts path) (home : Place)
    (base : Path) : landing home base <+: landing home (join base path) := by
  rw [landing, landing, isAbsolute_join relative]
  generalize (if isAbsolute base = true then [] else home) = start
  by_cases nonempty : base = []
  · rw [nonempty, join_empty]
    exact prefix_landing_go calm start
  · obtain ⟨front, idle, joined, whole, idles⟩ := join_of_relative relative nonempty
    rw [joined, whole, parts_append_slash, landing_go_append, landing_go_append, landing_go_idle idles]
    exact prefix_landing_go calm _

end GameHost.Path
