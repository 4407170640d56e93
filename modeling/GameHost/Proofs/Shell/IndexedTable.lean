import GameHost.Proofs.Shell.Namespace
import Mathlib

/-!
A table by name that has an index. Its entries stand in the order in which they were added, and a map from names in
small letters to places finds an entry without a search. The index is right as long as it says of every place what
name is there, and of no other; removing an entry moves all later ones, and their places with them.
-/
namespace GameHost

structure IndexedTable (β : Type) where
  entries : NameTable β
  /-- Where the entry of a name stands. The names are folded. -/
  places : Std.HashMap Text Nat

namespace IndexedTable

variable {β : Type}

def empty : IndexedTable β := ⟨[], ∅⟩

def place? (table : IndexedTable β) (name : Text) : Option Nat := table.places[Text.fold name]?

def has (table : IndexedTable β) (name : Text) : Bool := table.places.contains (Text.fold name)

/-- What stands at the place that the index has for a name. -/
def get? (table : IndexedTable β) (name : Text) : Option β :=
  (table.place? name).bind fun place => table.entries[place]?.map Prod.snd

/-- Add an entry behind all others. -/
def add (table : IndexedTable β) (name : Text) (entry : β) : IndexedTable β :=
  { entries := table.entries ++ [(name, entry)]
    places := table.places.insert (Text.fold name) table.entries.length }

/-- Give the entry at a place a new content. -/
def replace (table : IndexedTable β) (place : Nat) (entry : β) : IndexedTable β :=
  { table with entries := table.entries.modify place fun old => (old.1, entry) }

/-- Take the entry at a place out, which the index has for the name. Those behind it move up. -/
def remove (table : IndexedTable β) (name : Text) (place : Nat) : IndexedTable β :=
  { entries := table.entries.eraseIdx place
    places := (table.places.erase (Text.fold name)).map fun _ other => if place < other then other - 1 else other }

/-- The names of a table as the index has them. -/
def keys (entries : NameTable β) : List Text := (NameTable.names entries).map Text.fold

/-- The index has exactly the names that stand in the table, each with its one place. -/
structure Sound (table : IndexedTable β) : Prop where
  place_iff : ∀ (key : Text) (place : Nat), table.places[key]? = some place ↔ (keys table.entries)[place]? = some key

theorem sound_empty : Sound (empty : IndexedTable β) := by
  constructor
  intro key place
  simp [empty, keys, NameTable.names]

theorem mem_keys_iff {entries : NameTable β} {name : Text} :
    Text.fold name ∈ keys entries ↔ NameTable.has entries name = true := by
  rw [← not_iff_not, Bool.not_eq_true, NameTable.has_eq_false_iff, keys, List.mem_map]
  constructor
  · intro missing other member
    exact Bool.eq_false_iff.2 fun alike => missing ⟨other, member, Text.same_iff.1 alike⟩
  · rintro apart ⟨other, member, alike⟩
    exact Bool.noConfusion ((apart other member).symm.trans (Text.same_iff.2 alike))

theorem keys_add (entries : NameTable β) (name : Text) (entry : β) :
    keys (entries ++ [(name, entry)]) = keys entries ++ [Text.fold name] := by
  simp [keys, NameTable.names]

theorem keys_update (entries : NameTable β) (name : Text) (change : β → β) :
    keys (NameTable.update entries name change) = keys entries := by
  unfold keys NameTable.names NameTable.update
  rw [List.map_map, List.map_map, List.map_map]
  refine List.map_congr_left fun entry _ => ?_
  dsimp only [Function.comp]
  split <;> rfl

theorem keys_erase (entries : NameTable β) (name : Text) :
    keys (NameTable.erase entries name) = (keys entries).filter (· ≠ Text.fold name) := by
  unfold keys NameTable.names NameTable.erase
  rw [List.map_map, List.map_map, List.filter_map]
  refine congrArg _ (List.filter_congr fun entry _ => ?_)
  rw [Bool.eq_iff_iff]
  simp [← Text.same_iff]

/-- Where only one place fails a test, what passes is the rest. -/
theorem filter_eq_eraseIdx {γ : Type} {list : List γ} {test : γ → Bool} {place : Nat} (bound : place < list.length)
    (only : ∀ (other : Nat) (x : γ), list[other]? = some x → (test x = false ↔ other = place)) :
    list.filter test = list.eraseIdx place := by
  induction list generalizing place with
  | nil => cases bound
  | cons x rest ih =>
    have first := only 0 x rfl
    cases place with
    | zero =>
      rw [List.filter_cons_of_neg (by simp [first]), List.eraseIdx_cons_zero]
      refine List.filter_eq_self.2 fun y member => ?_
      obtain ⟨other, found⟩ := List.mem_iff_getElem?.1 member
      simpa using (only (other + 1) y found).not.2 (Nat.succ_ne_zero other)
    | succ place =>
      rw [List.filter_cons_of_pos (by simpa using first.not.2 (Nat.succ_ne_zero place).symm), List.eraseIdx_cons_succ]
      refine congrArg _ (ih (Nat.lt_of_succ_lt_succ bound) fun other y found => ?_)
      exact (only (other + 1) y found).trans Nat.succ_inj

namespace Sound

variable {table : IndexedTable β} {name : Text} {place : Nat}

theorem place?_eq_none_iff (sound : Sound table) : table.place? name = none ↔ NameTable.has table.entries name = false := by
  rw [← not_iff_not, Bool.not_eq_false, ← mem_keys_iff, List.mem_iff_getElem?, ← ne_eq, Option.ne_none_iff_exists']
  exact exists_congr fun place => sound.place_iff _ _

theorem has_eq (sound : Sound table) (name : Text) : table.has name = NameTable.has table.entries name := by
  have contained : table.has name = (table.place? name).isSome := Std.HashMap.contains_eq_isSome_getElem?
  rw [Bool.eq_iff_iff, contained, Option.isSome_iff_ne_none, ne_eq, sound.place?_eq_none_iff, Bool.not_eq_false]

/-- The entry of a name stands where the index says, and no other entry has the name. -/
theorem same_iff (sound : Sound table) (there : table.place? name = some place) {other : Nat} {entry : Text × β}
    (found : table.entries[other]? = some entry) : Text.same entry.1 name = true ↔ other = place := by
  have spelled : (keys table.entries)[other]? = some (Text.fold entry.1) := by simp [keys, NameTable.names, found]
  rw [Text.same_iff]
  constructor
  · intro alike
    have again : table.place? name = some other := (sound.place_iff _ _).2 (alike ▸ spelled)
    exact Option.some.inj (again.symm.trans there)
  · rintro rfl
    exact Option.some.inj (spelled.symm.trans ((sound.place_iff _ _).1 there))

theorem bound (sound : Sound table) (there : table.place? name = some place) : place < table.entries.length := by
  obtain ⟨bound, -⟩ := List.getElem?_eq_some_iff.1 ((sound.place_iff _ _).1 there)
  simpa [keys, NameTable.names] using bound

theorem get?_eq (sound : Sound table) (name : Text) : table.get? name = NameTable.get? table.entries name := by
  unfold get?
  cases there : table.place? name with
  | none =>
    have missing := sound.place?_eq_none_iff.1 there
    rw [NameTable.has, Option.isSome_eq_false_iff, Option.isNone_iff_eq_none] at missing
    rw [NameTable.get?, missing]
    rfl
  | some place =>
    have stands := List.getElem?_eq_getElem (sound.bound there)
    have found : NameTable.find? table.entries name = table.entries[place]? := by
      rw [stands]
      refine List.find?_eq_some_iff_getElem.2 ⟨(sound.same_iff there stands).2 rfl, place, sound.bound there, rfl, ?_⟩
      intro earlier less
      have other := List.getElem?_eq_getElem (Nat.lt_trans less (sound.bound there))
      simpa using (sound.same_iff there other).not.2 (Nat.ne_of_lt less)
    rw [NameTable.get?, found]
    rfl

theorem add (sound : Sound table) (free : NameTable.has table.entries name = false) (entry : β) :
    Sound (table.add name entry) := by
  constructor
  intro key place
  have length : (keys table.entries).length = table.entries.length := by simp [keys, NameTable.names]
  have fresh : Text.fold name ∉ keys table.entries := by rw [mem_keys_iff, free]; exact Bool.false_ne_true
  rw [IndexedTable.add, keys_add, Std.HashMap.getElem?_insert, List.getElem?_append, length]
  by_cases same : Text.fold name = key
  · subst same
    rw [if_pos (beq_self_eq_true _)]
    split
    · rename_i less
      constructor
      · intro last
        exact absurd (Option.some.inj last) (Nat.ne_of_gt less)
      · intro earlier
        exact absurd (List.mem_of_getElem? earlier) fresh
    · simp only [Option.some.injEq, List.getElem?_singleton]
      split
      · simp; omega
      · simp; omega
  · rw [if_neg (by simpa using same), sound.place_iff]
    split
    · rfl
    · rename_i beyond
      rw [List.getElem?_eq_none (by omega), List.getElem?_singleton]
      split <;> simp [same]

theorem entries_replace (sound : Sound table) (there : table.place? name = some place) (entry : β) :
    (table.replace place entry).entries = NameTable.update table.entries name fun _ => entry := by
  refine List.ext_getElem? fun other => ?_
  rw [replace, NameTable.update, List.getElem?_modify, List.getElem?_map]
  cases found : table.entries[other]? with
  | none => rfl
  | some old =>
    have here := sound.same_iff there found
    by_cases same : place = other
    · simp [same, here.2 same.symm]
    · simp [same, here.not.2 (Ne.symm same)]

theorem replace (sound : Sound table) (there : table.place? name = some place) (entry : β) :
    Sound (table.replace place entry) := by
  constructor
  intro key other
  rw [sound.entries_replace there, keys_update]
  exact sound.place_iff key other

theorem entries_remove (sound : Sound table) (there : table.place? name = some place) :
    (table.remove name place).entries = NameTable.erase table.entries name := by
  refine (filter_eq_eraseIdx (sound.bound there) fun other entry found => ?_).symm
  rw [Bool.not_eq_false']
  exact sound.same_iff there found

/-- The places behind the one that is removed are renumbered, and these only. -/
theorem remove (sound : Sound table) (there : table.place? name = some place) : Sound (table.remove name place) := by
  constructor
  intro key other
  have named : (keys table.entries)[place]? = some (Text.fold name) := (sound.place_iff _ _).1 there
  have erased : keys (table.remove name place).entries = (keys table.entries).eraseIdx place := by
    unfold keys NameTable.names IndexedTable.remove
    simp only [List.map_map, List.eraseIdx_eq_take_drop_succ, List.map_append, List.map_take, List.map_drop]
  rw [erased, List.getElem?_eraseIdx, IndexedTable.remove, Std.HashMap.getElem?_map, Std.HashMap.getElem?_erase,
    Option.map_eq_some_iff]
  constructor
  · rintro ⟨old, found, moved⟩
    split at found
    · cases found
    · rename_i unlike
      have stands := (sound.place_iff _ _).1 found
      have elsewhere : old ≠ place := by
        rintro rfl
        exact unlike (by simpa using Option.some.inj (named.symm.trans stands))
      split at moved
      · rename_i behind
        rw [if_neg (by omega), show other + 1 = old by omega]
        exact stands
      · rw [if_pos (by omega), ← moved]
        exact stands
  · intro stands
    have apart : ∀ old, (keys table.entries)[old]? = some key → old ≠ place → (Text.fold name == key) = false := by
      intro old here elsewhere
      refine beq_false_of_ne fun same => elsewhere ?_
      exact Option.some.inj (((sound.place_iff _ _).2 here).symm.trans (same ▸ there))
    split at stands
    · rename_i before
      refine ⟨other, ?_, if_neg (by omega)⟩
      rw [apart other stands (by omega)]
      exact (sound.place_iff _ _).2 stands
    · refine ⟨other + 1, ?_, if_pos (by omega)⟩
      rw [apart (other + 1) stands (by omega)]
      exact (sound.place_iff _ _).2 stands

end Sound

end IndexedTable

end GameHost
