import GameHost.Proofs.Message.Discipline

/-!
Taking back what was written. A message put back to a snapshot of itself shows what it showed then, whatever was done
to it in between, refused calls and overflows included. What the calls in between left behind the written part is still
in memory, but no later call that brings bytes of its own can tell.
-/
namespace GameHost.Message
open Buffer

/-- Two messages that differ in nothing but what lies in memory behind the written part. -/
structure LooksAs (b t : Buffer) : Prop where
  steady : Steady b t
  written : t.written = b.written
  overflowed : t.overflowed = b.overflowed

/-- Two calls that end in the same way and leave messages that look the same. -/
inductive EndsAs : EStateM.Result Fault Buffer Unit → EStateM.Result Fault Buffer Unit → Prop where
  | done {m t : Buffer} (looks : LooksAs m t) : EndsAs (.ok () m) (.ok () t)
  | refused {m t : Buffer} {fault : Fault} (looks : LooksAs m t) : EndsAs (.error fault m) (.error fault t)

/-- Whether a call brings all bytes that it takes into the message. Reserving room takes those that are there. -/
def Edit.BringsBytes : Edit → Prop
  | .reserve _ => False
  | _ => True

/-- What is seen of a call: the fault that it stops with, if any, and what the message shows after it. -/
structure Sight where
  fault : Option Fault
  shown : Snapshot
  deriving DecidableEq

def sight : EStateM.Result Fault Buffer Unit → Sight
  | .ok _ t => ⟨none, t.snapshot⟩
  | .error fault t => ⟨some fault, t.snapshot⟩

/-- What is seen of calls one after another. -/
def sights (build : Build) : List Edit → Buffer → List Sight
  | [], _ => []
  | edit :: later, b => sight (edit.act build b) :: sights build later (Act.final (edit.act build b))

namespace LooksAs

variable {b t m n : Buffer}

theorem snapshot (looks : LooksAs b t) : t.snapshot = b.snapshot := by
  have filled : t.filled = b.filled := Packed.ext looks.written
  unfold Buffer.snapshot
  rw [filled, looks.overflowed]

theorem size (looks : LooksAs b t) : t.size = b.size := by
  rw [← length_written, looks.written, length_written]

/-- What comes of two messages that look the same looks the same if it shows the same. -/
theorem onward {bytes : Bytes} {overflowed : Bool} (looks : LooksAs b t) (first : Steady b m) (second : Steady t n)
    (shows : m.written = bytes ∧ m.overflowed = overflowed) (other : n.written = bytes ∧ n.overflowed = overflowed) :
    LooksAs m n := by
  have back : Steady m b := ⟨first.capacity.symm, first.forgiving.symm⟩
  exact ⟨(back.trans looks.steady).trans second, other.1.trans shows.1.symm, other.2.trans shows.2.symm⟩

end LooksAs

section

variable {build : Build} {b t : Buffer} {first second : EStateM.Result Fault Buffer Unit}

theorem EndsAs.final (ends : EndsAs first second) : LooksAs (Act.final first) (Act.final second) := by
  cases ends with
  | done looks | refused looks => exact looks

theorem EndsAs.sight (ends : EndsAs first second) : sight second = sight first := by
  cases ends with
  | done looks | refused looks => simp only [Message.sight, looks.snapshot]

/-- Adding the same bytes behind the same ones comes out the same: it depends on no other memory. -/
theorem Added.endsAs {kept data : Bytes} (looks : LooksAs b t) (one : Added b kept (.own data) first)
    (other : Added t kept (.own data) second) : EndsAs first second := by
  have length : (Addition.own data).length = data.length := rfl
  have capacity : t.capacity = b.capacity := looks.steady.capacity
  have forgives : t.forgiving = b.forgiving := looks.steady.forgiving
  by_cases room : kept.length + data.length ≤ b.capacity
  · obtain ⟨m, rfl, shows⟩ := one.fits room
    obtain ⟨n, rfl, shown⟩ := other.fits (by omega)
    rw [looks.overflowed] at shown
    exact .done (looks.onward one.steady other.steady shows shown)
  have full : b.capacity < kept.length + data.length := Nat.not_le.1 room
  cases forgiving : b.forgiving with
  | false =>
    obtain ⟨m, rfl⟩ := one.overflow_iff.2 ⟨forgiving, full⟩
    obtain ⟨n, rfl⟩ := other.overflow_iff.2 ⟨forgives.trans forgiving, by omega⟩
    rw [(one.failed _ _ rfl).1, (other.failed _ _ rfl).1]
    exact .refused looks
  | true =>
    by_cases short : data.length ≤ b.capacity
    · obtain ⟨m, rfl, shows⟩ := one.dropped forgiving full short
      obtain ⟨n, rfl, shown⟩ := other.dropped (forgives.trans forgiving) (by omega) (by omega)
      exact .done (looks.onward one.steady other.steady shows shown)
    · obtain ⟨m, rfl⟩ := one.oversized_iff.2 ⟨forgiving, by omega⟩
      obtain ⟨n, rfl⟩ := other.oversized_iff.2 ⟨forgives.trans forgiving, by omega⟩
      rw [(one.failed _ _ rfl).1, (other.failed _ _ rfl).1]
      exact .refused looks

theorem Replaced.endsAs {data : Bytes} (looks : LooksAs b t) (one : Replaced b data first)
    (other : Replaced t data second) : EndsAs first second := by
  have capacity : t.capacity = b.capacity := looks.steady.capacity
  have forgives : t.forgiving = b.forgiving := looks.steady.forgiving
  by_cases room : data.length ≤ b.capacity
  · obtain ⟨m, rfl, shows⟩ := one.fits room
    obtain ⟨n, rfl, shown⟩ := other.fits (by omega)
    exact .done (looks.onward one.steady other.steady shows shown)
  cases forgiving : b.forgiving with
  | false =>
    obtain ⟨m, rfl⟩ := one.overflow_iff.2 ⟨forgiving, by omega⟩
    obtain ⟨n, rfl⟩ := other.overflow_iff.2 ⟨forgives.trans forgiving, by omega⟩
    exact .refused (looks.onward one.steady other.steady (one.failed _ _ rfl) (other.failed _ _ rfl))
  | true =>
    obtain ⟨m, rfl⟩ := one.oversized_iff.2 ⟨forgiving, by omega⟩
    obtain ⟨n, rfl⟩ := other.oversized_iff.2 ⟨forgives.trans forgiving, by omega⟩
    exact .refused (looks.onward one.steady other.steady (one.failed _ _ rfl) (other.failed _ _ rfl))

theorem Turned.endsAs {bytes : Bytes} {overflowed : Bool} (looks : LooksAs b t) (one : Turned b bytes overflowed first)
    (other : Turned t bytes overflowed second) : EndsAs first second := by
  obtain ⟨m, rfl, steady, shows⟩ := one
  obtain ⟨n, rfl, still, shown⟩ := other
  exact .done (looks.onward steady still shows shown)

theorem Writing.kept_of_looksAs (writing : Writing) (looks : LooksAs b t) : writing.kept t = writing.kept b := by
  cases writing <;> simp only [Writing.kept, looks.written]

theorem Edit.BringsBytes.inWord {edit : Edit} (brings : edit.BringsBytes) (b : Buffer) : edit.InWord b := by
  cases edit with
  | reserve length => exact absurd brings id
  | _ => trivial

/-- A call that brings its bytes cannot tell messages apart that look the same. -/
theorem Edit.endsAs {edit : Edit} (brings : edit.BringsBytes) (looks : LooksAs b t) :
    EndsAs (edit.act build b) (edit.act build t) := by
  have one : edit.Disciplined build b := Edit.disciplined (brings.inWord b)
  have other : edit.Disciplined build t := Edit.disciplined (brings.inWord t)
  cases edit with
  | write writing =>
    have own : ∃ data, writing.addition = .own data := by cases writing <;> exact ⟨_, rfl⟩
    obtain ⟨data, added⟩ := own
    simp only [Edit.Disciplined, writing.kept_of_looksAs looks, added] at one other
    exact Added.endsAs looks one other
  | reserve length => exact absurd brings id
  | fill data => exact Replaced.endsAs looks one other
  | clear => exact Turned.endsAs looks one other
  | restore snapshot =>
    simp only [Edit.Disciplined, looks.steady.capacity] at one other
    exact Turned.endsAs looks one other

theorem sights_of_looksAs {later : List Edit} (bring : ∀ edit ∈ later, edit.BringsBytes) (looks : LooksAs b t) :
    sights build later t = sights build later b := by
  induction later generalizing b t with
  | nil => rfl
  | cons edit rest ih =>
    have ends : EndsAs (edit.act build b) (edit.act build t) := Edit.endsAs (bring edit List.mem_cons_self) looks
    have onward := ih (fun other member => bring other (List.mem_cons_of_mem edit member)) ends.final
    rw [sights, sights, ends.sight, onward]

end

/-- A message that has kept its memory shows after going back what the snapshot was taken of. -/
theorem looksAs_restore {b m : Buffer} (steady : Steady b m) : LooksAs b (m.restore b.snapshot) := by
  refine ⟨steady.trans (steady_restore b.snapshot m), ?_, rfl⟩
  have inside : b.written.length ≤ m.capacity := by
    rw [steady.capacity, length_written]
    exact Nat.le_add_right _ _
  calc (m.restore b.snapshot).written = b.written.take m.capacity := Packed.bytes_take _ _
    _ = b.written := List.take_of_length_le inside

/-- Whatever calls come between taking a snapshot and going back to it, the message then shows what it showed before,
with its capacity and its policy, and every later run of calls that bring their bytes goes as if there had been none. -/
theorem calls_between_unseen (build : Build) (b : Buffer) (between : List Edit) :
    let t := (edited build between b).restore b.snapshot
    t.written = b.written ∧ t.size = b.size ∧ t.overflowed = b.overflowed ∧ t.capacity = b.capacity ∧
      t.forgiving = b.forgiving ∧
      ∀ later : List Edit, (∀ edit ∈ later, edit.BringsBytes) → sights build later t = sights build later b := by
  intro t
  have looks : LooksAs b t := looksAs_restore (steady_edited build between b)
  exact ⟨looks.written, looks.size, looks.overflowed, looks.steady.capacity, looks.steady.forgiving,
    fun later bring => sights_of_looksAs bring looks⟩

/-- A message that overflowed, refused a write that is too long, was cleared, and lost a byte to a size that no word holds,
before it went back. Then a text goes on over the zero of the text before it, a write drops both, and one that is too long
is refused again. -/
theorem overflow_between_unseen :
    let b := edited .unchecked [.write (.append ['a', 'b'])] (fresh true 6)
    let between : List Edit := [.write (.bytes [1, 2, 3, 4]), .write (.append "too long".toList), .clear,
      .reserve 6, .write (.text ['c']), .reserve 0xFFFFFFFFFFFFFFFF]
    let later : List Edit := [.write (.append ['d']), .write (.copy (edited .unchecked [.fill [5, 6, 7]] (fresh false 3))),
      .write (.append "too long".toList)]
    (edited .unchecked between b).written = [99] ∧ (edited .unchecked between b).overflowed = true ∧
      sights .unchecked later ((edited .unchecked between b).restore b.snapshot) =
        [⟨none, ⟨Packed.ofBytes [97, 98, 100, 0], false⟩⟩, ⟨none, ⟨Packed.ofBytes [5, 6, 7], true⟩⟩,
          ⟨some (.oversized 9), ⟨Packed.ofBytes [5, 6, 7], true⟩⟩] := by
  intro b between later
  obtain ⟨_, _, _, _, _, same⟩ := calls_between_unseen .unchecked b between
  rw [same later (by simp [later, Edit.BringsBytes])]
  decide +kernel

/-- Room that is reserved shows what was taken back. -/
example (build : Build) : (edited build
    [.write (.bytes [1, 2]), .restore (fresh false 2).snapshot, .reserve 2] (fresh false 2)).written = [1, 2] := by
  cases build <;> decide +kernel

end GameHost.Message
