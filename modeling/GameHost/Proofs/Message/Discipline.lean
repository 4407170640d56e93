import GameHost.Message.Field
import GameHost.Proofs.Message.Fill

/-!
What becomes of a message under any history of calls, failed ones included. Its memory keeps the size it was made with.
A call that writes fails exactly if a strict message has no room for what is new, or if what is new is longer than all
of a forgiving one, and then it changes nothing; a forgiving message that has no room otherwise drops what it held. It
is different only with a request for so many bytes that no machine word holds the size they would make.
-/
namespace GameHost.Message

/-- A call that writes bytes behind what is there. -/
inductive Writing where
  | bytes (data : Bytes)
  /-- What another message holds. -/
  | copy (other : Buffer)
  /-- A text in continuation of the text before it. -/
  | append (words : Text)
  | text (words : Text)
  | byte (n : Int32)
  | short (n : Int32)
  | long (n : Int32)
  | single (x : Single)
  | coord (x : Single)
  | angle (x : Single)

/-- A call that changes a message. -/
inductive Edit where
  | write (writing : Writing)
  /-- Take in bytes of the memory as they are. -/
  | reserve (length : UInt64)
  | fill (data : Bytes)
  | clear
  | restore (snapshot : Snapshot)

/-- What a call puts behind the bytes it keeps: bytes of its own, or as many as it asks for of those in memory. -/
inductive Addition where
  | reserved (length : Nat)
  | own (data : Bytes)

namespace Addition

def length : Addition → Nat
  | .reserved length => length
  | .own data => data.length

/-- The bytes that come into view at a place in memory. -/
def content : Addition → Bytes → Nat → Bytes
  | .reserved length, memory, start => (memory.drop start).take length
  | .own data, _, _ => data

def packed : Addition → Buffer → Packed
  | .reserved length, b => b.after length
  | .own data, _ => Packed.ofBytes data

/-- Put it behind what is written, once there is room. -/
def add (new : Addition) : Act Buffer Unit := do
  Buffer.makeRoom new.length
  modify fun b => b.put (new.packed b)

end Addition

namespace Buffer

/-- All bytes of a message, the written ones first. -/
def memory (b : Buffer) : Bytes := b.written ++ b.stale.bytes ++ List.replicate b.blank 0

/-- An empty message of a capacity. -/
def fresh (forgiving : Bool) (capacity : Nat) : Buffer := if forgiving then overflowing capacity else strict capacity

/-- What a message never changes: how large it is, and whether it forgives. -/
structure Steady (b t : Buffer) : Prop where
  capacity : t.capacity = b.capacity
  forgiving : t.forgiving = b.forgiving

end Buffer

open Buffer

/-- How a call comes out that puts something new behind bytes it keeps. -/
structure Added (b : Buffer) (kept : Bytes) (new : Addition) (outcome : EStateM.Result Fault Buffer Unit) : Prop where
  steady : Steady b (Act.final outcome)
  overflow_iff : (∃ t, outcome = .error .overflow t) ↔ b.forgiving = false ∧ b.capacity < kept.length + new.length
  oversized_iff : (∃ t, outcome = .error (.oversized new.length) t) ↔ b.forgiving = true ∧ b.capacity < new.length
  failed : ∀ fault t, outcome = .error fault t → t = b ∧ (fault = .overflow ∨ fault = .oversized new.length)
  fits : kept.length + new.length ≤ b.capacity → ∃ t, outcome = .ok () t ∧
    t.written = kept ++ new.content b.memory kept.length ∧ t.overflowed = b.overflowed
  dropped : b.forgiving = true → b.capacity < kept.length + new.length → new.length ≤ b.capacity →
    ∃ t, outcome = .ok () t ∧ t.written = new.content b.memory 0 ∧ t.overflowed = true

/-- How a call comes out that drops all that is written before it writes. -/
structure Replaced (b : Buffer) (bytes : Bytes) (outcome : EStateM.Result Fault Buffer Unit) : Prop where
  steady : Steady b (Act.final outcome)
  overflow_iff : (∃ t, outcome = .error .overflow t) ↔ b.forgiving = false ∧ b.capacity < bytes.length
  oversized_iff : (∃ t, outcome = .error (.oversized bytes.length) t) ↔ b.forgiving = true ∧ b.capacity < bytes.length
  failed : ∀ fault t, outcome = .error fault t → t.written = [] ∧ t.overflowed = false
  fits : bytes.length ≤ b.capacity → ∃ t, outcome = .ok () t ∧ t.written = bytes ∧ t.overflowed = false

/-- A call that cannot fail and leaves certain bytes written, and the message overflowed or not. -/
def Turned (b : Buffer) (bytes : Bytes) (overflowed : Bool) (outcome : EStateM.Result Fault Buffer Unit) : Prop :=
  ∃ t, outcome = .ok () t ∧ Steady b t ∧ t.written = bytes ∧ t.overflowed = overflowed

namespace Writing

def act : Writing → Act Buffer Unit
  | .bytes data => Buffer.write data
  | .copy other => writePacked other.filled
  | .append words => Buffer.append words
  | .text words => writeText words
  | .byte n => writeByte n
  | .short n => writeShort n
  | .long n => writeLong n
  | .single x => writeSingle x
  | .coord x => writeCoord x
  | .angle x => writeAngle x

def addition : Writing → Addition
  | .bytes data => .own data
  | .copy other => .own other.written
  | .append words => .own (terminated words)
  | .text words => .own (terminated words)
  | .byte n => .own ((Bytes.ofInt32 n).take 1)
  | .short n => .own ((Bytes.ofInt32 n).take 2)
  | .long n => .own (Bytes.ofInt32 n)
  | .single x => .own (Bytes.ofWord32 x.bits)
  | .coord x => .own ((Bytes.ofInt32 (coordWord x)).take 2)
  | .angle x => .own ((Bytes.ofInt32 (angleStep x.floorWord)).take 1)

/-- The bytes that stay in front. Only a continued text gives up one, the zero at its end. -/
def kept : Writing → Buffer → Bytes
  | .append _, b => if b.written.getLast? = some 0 then b.written.dropLast else b.written
  | _, b => b.written

end Writing

namespace Edit

def act (build : Build) : Edit → Act Buffer Unit
  | .write writing => writing.act
  | .reserve length => do let _ ← Buffer.reserve build length
  | .fill data => Buffer.fill data
  | .clear => modify Buffer.clear
  | .restore snapshot => modify (Buffer.restore snapshot)

def Disciplined (build : Build) (b : Buffer) (edit : Edit) : Prop :=
  match edit with
  | .write writing => Added b (writing.kept b) writing.addition (edit.act build b)
  | .reserve length => Added b b.written (.reserved length.toNat) (edit.act build b)
  | .fill data => Replaced b data (edit.act build b)
  | .clear => Turned b [] false (edit.act build b)
  | .restore snapshot => Turned b (snapshot.data.bytes.take b.capacity) snapshot.overflowed (edit.act build b)

/-- A machine word holds the size that is asked for. Bytes that are there are never so many that none does. -/
def InWord (b : Buffer) : Edit → Prop
  | .reserve length => b.size + length.toNat < UInt64.size
  | _ => True

end Edit

/-- How a call comes out that asks for so many bytes that no word holds the size: the program stops, or bytes that were
written are lost. -/
def Overrun (build : Build) (b : Buffer) (length : UInt64) (outcome : EStateM.Result Fault Buffer Unit) : Prop :=
  match build with
  | .checked => outcome = .error .wordOverflow b
  | .unchecked => ∃ t, outcome = .ok () t ∧ Steady b t ∧ t.written = b.written.take (b.size + length.toNat - UInt64.size) ∧
    t.size < b.size ∧ t.overflowed = b.overflowed

/-- A message after a history of calls. -/
def edited (build : Build) (history : List Edit) (b : Buffer) : Buffer :=
  history.foldl (fun b edit => Act.final (edit.act build b)) b

namespace Buffer

theorem Steady.refl (b : Buffer) : Steady b b := ⟨rfl, rfl⟩

theorem Steady.trans {b m t : Buffer} (first : Steady b m) (second : Steady m t) : Steady b t :=
  ⟨second.capacity.trans first.capacity, second.forgiving.trans first.forgiving⟩

theorem length_memory (b : Buffer) : b.memory.length = b.capacity := by
  simp only [memory, List.length_append, length_written, Packed.length_bytes, List.length_replicate, capacity, free]
  omega

theorem steady_put {data : Packed} {b : Buffer} (fits : data.size ≤ b.free) : Steady b (b.put data) :=
  ⟨capacity_put fits, rfl⟩

theorem steady_clear (b : Buffer) : Steady b b.clear := ⟨capacity_clear b, rfl⟩

theorem memory_clear (b : Buffer) : b.clear.memory = b.memory := by
  simp [memory, written, clear]

theorem written_cut (size : Nat) (b : Buffer) : (b.cut size).written = b.written.take size := Packed.bytes_take _ _

theorem steady_cut (size : Nat) (b : Buffer) : Steady b (b.cut size) := by
  refine ⟨?_, rfl⟩
  simp only [capacity, Buffer.size, free, cut, Packed.size_append, Packed.size_take, Packed.size_drop]
  omega

theorem overflowed_cut (size : Nat) (b : Buffer) : (b.cut size).overflowed = b.overflowed := rfl

theorem memory_cut (size : Nat) (b : Buffer) : (b.cut size).memory = b.memory := by
  simp only [memory, written, cut, Packed.bytes_take, Packed.bytes_append, Packed.bytes_drop]
  rw [← List.append_assoc (List.take _ _), List.take_append_drop]

theorem written_unput (b : Buffer) : b.unput.written = b.written.dropLast := by
  rw [List.dropLast_eq_take, length_written]
  exact written_cut _ _

theorem steady_restore (snapshot : Snapshot) (b : Buffer) : Steady b (b.restore snapshot) := by
  refine ⟨?_, rfl⟩
  simp only [capacity, size, free, restore, Packed.size_append, Packed.size_take, Packed.size_drop]
  omega

theorem bytes_after (length : Nat) (b : Buffer) : (b.after length).bytes = (b.memory.drop b.size).take length := by
  have rest : b.memory.drop b.size = b.stale.bytes ++ List.replicate b.blank 0 := by
    rw [memory, List.append_assoc, ← length_written, List.drop_left]
  rw [rest, List.take_append, List.take_replicate, Packed.length_bytes]
  simp [after]

theorem makeRoom_overflow {length : Nat} {b : Buffer} (strict : b.forgiving = false) (full : b.free < length) :
    makeRoom length b = .error .overflow b := by
  simp [makeRoom, strict, Nat.not_le.2 full]

theorem makeRoom_oversized {length : Nat} {b : Buffer} (forgiving : b.forgiving = true) (long : b.capacity < length) :
    makeRoom length b = .error (.oversized length) b := by
  have full : ¬ length ≤ b.free := by
    unfold capacity at long
    omega
  simp [makeRoom, forgiving, full, long]

theorem makeRoom_emptied {length : Nat} {b : Buffer} (forgiving : b.forgiving = true) (full : b.free < length)
    (short : length ≤ b.capacity) : makeRoom length b = .ok () { b.clear with overflowed := true } := by
  simp [makeRoom, forgiving, Nat.not_le.2 full, Nat.not_lt.2 short]

end Buffer

namespace Addition

variable {new : Addition} {b : Buffer}

theorem bytes_packed (new : Addition) (b : Buffer) : (new.packed b).bytes = new.content b.memory b.size := by
  cases new with
  | reserved length => exact bytes_after length b
  | own data => exact Packed.bytes_ofBytes data

theorem size_packed (fits : new.length ≤ b.free) : (new.packed b).size = new.length := by
  cases new with
  | reserved length =>
    rw [← Packed.length_bytes, packed, bytes_after, List.length_take, List.length_drop, length_memory, capacity,
      Nat.add_sub_cancel_left]
    exact Nat.min_eq_left fits
  | own data => exact Packed.size_ofBytes data

theorem steady_put_packed (fits : new.length ≤ b.free) : Steady b (b.put (new.packed b)) :=
  steady_put (by rwa [size_packed fits])

theorem added_of_room (room : new.length ≤ b.free) : Added b b.written new (new.add b) := by
  have whole : b.capacity = b.written.length + b.free := by rw [length_written, capacity]
  have ran : new.add b = .ok () (b.put (new.packed b)) := Act.bind_of_ok (makeRoom_of_fits room)
  rw [ran]
  constructor
  case steady => exact steady_put_packed room
  case overflow_iff => simp [whole, room]
  case oversized_iff =>
    simp only [reduceCtorEq, exists_false, false_iff, not_and]
    omega
  case failed => simp
  case fits =>
    intro _
    refine ⟨_, rfl, ?_, rfl⟩
    rw [written_put, bytes_packed, length_written]
  case dropped => omega

theorem added_of_overflow (strict : b.forgiving = false) (full : b.free < new.length) :
    Added b b.written new (new.add b) := by
  have whole : b.capacity = b.written.length + b.free := by rw [length_written, capacity]
  have ran : new.add b = .error .overflow b := Act.bind_of_error (makeRoom_overflow strict full)
  rw [ran]
  constructor
  case steady => exact .refl b
  case overflow_iff => simp [strict, whole, full]
  case oversized_iff => simp [strict]
  case failed =>
    rintro _ _ ⟨⟩
    exact ⟨rfl, .inl rfl⟩
  case fits => omega
  case dropped => simp [strict]

theorem added_of_oversized (forgiving : b.forgiving = true) (long : b.capacity < new.length) :
    Added b b.written new (new.add b) := by
  have ran : new.add b = .error (.oversized new.length) b := Act.bind_of_error (makeRoom_oversized forgiving long)
  rw [ran]
  constructor
  case steady => exact .refl b
  case overflow_iff => simp [forgiving]
  case oversized_iff => simp [forgiving, long]
  case failed =>
    rintro _ _ ⟨⟩
    exact ⟨rfl, .inr rfl⟩
  case fits => omega
  case dropped => omega

theorem added_of_emptied (forgiving : b.forgiving = true) (full : b.free < new.length)
    (short : new.length ≤ b.capacity) : Added b b.written new (new.add b) := by
  have whole : b.capacity = b.written.length + b.free := by rw [length_written, capacity]
  let empty : Buffer := { b.clear with overflowed := true }
  have ran : new.add b = .ok () (empty.put (new.packed empty)) :=
    Act.bind_of_ok (makeRoom_emptied forgiving full short)
  have room : new.length ≤ empty.free := (free_clear b).symm ▸ short
  have now : (empty.put (new.packed empty)).written = new.content b.memory 0 := by
    rw [written_put, bytes_packed, show empty.memory = b.memory from memory_clear b]
    rfl
  rw [ran]
  constructor
  case steady =>
    have emptied : Steady b empty := ⟨capacity_clear b, rfl⟩
    exact emptied.trans (steady_put_packed room)
  case overflow_iff => simp [forgiving]
  case oversized_iff => simp [forgiving, short]
  case failed => simp
  case fits => omega
  case dropped => exact fun _ _ _ => ⟨_, rfl, now, rfl⟩

theorem added (new : Addition) (b : Buffer) : Added b b.written new (new.add b) := by
  by_cases room : new.length ≤ b.free
  · exact added_of_room room
  have full : b.free < new.length := Nat.not_le.1 room
  cases forgiving : b.forgiving with
  | false => exact added_of_overflow forgiving full
  | true =>
    by_cases short : new.length ≤ b.capacity
    · exact added_of_emptied forgiving full short
    · exact added_of_oversized forgiving (Nat.not_le.1 short)

end Addition

/-- An outcome, but with the message as it was where the call failed. -/
def orBefore (b : Buffer) : EStateM.Result Fault Buffer Unit → EStateM.Result Fault Buffer Unit
  | .ok _ t => .ok () t
  | .error fault _ => .error fault b

theorem orBefore_error_iff {b : Buffer} {fault : Fault} {outcome : EStateM.Result Fault Buffer Unit} :
    (∃ t, orBefore b outcome = .error fault t) ↔ ∃ t, outcome = .error fault t := by
  cases outcome <;> simp [orBefore]

theorem Added.of_unput {b : Buffer} {new : Addition} {outcome : EStateM.Result Fault Buffer Unit}
    (added : Added b.unput b.unput.written new outcome) : Added b b.written.dropLast new (orBefore b outcome) := by
  obtain ⟨steady, overflow_iff, oversized_iff, failed, fits, dropped⟩ := added
  have same : Steady b b.unput := steady_cut _ b
  rw [same.capacity, written_unput] at overflow_iff fits dropped
  rw [same.capacity] at oversized_iff
  rw [same.forgiving] at overflow_iff oversized_iff dropped
  rw [show b.unput.memory = b.memory from memory_cut _ b] at fits dropped
  constructor
  case steady =>
    cases outcome with
    | ok _ t => exact same.trans steady
    | error fault t => exact .refl b
  case overflow_iff => rw [orBefore_error_iff, overflow_iff]
  case oversized_iff => rw [orBefore_error_iff, oversized_iff]
  case failed =>
    intro fault t ended
    obtain ⟨m, inner⟩ := orBefore_error_iff.1 ⟨t, ended⟩
    rw [inner] at ended
    cases ended
    exact ⟨rfl, (failed fault m inner).2⟩
  case fits =>
    intro room
    obtain ⟨t, rfl, now⟩ := fits room
    exact ⟨t, rfl, now⟩
  case dropped =>
    intro forgiving full short
    obtain ⟨t, rfl, now⟩ := dropped forgiving full short
    exact ⟨t, rfl, now⟩

namespace Writing

theorem writePacked_eq_add (data : Packed) : writePacked data = (Addition.own data.bytes).add := by
  unfold writePacked Addition.add Addition.length Addition.packed
  simp only [Packed.length_bytes, Packed.ofBytes_bytes]

theorem write_eq_add (data : Bytes) : Buffer.write data = (Addition.own data).add := by
  rw [Buffer.write, writePacked_eq_add, Packed.bytes_ofBytes]

theorem added_append (words : Text) (b : Buffer) :
    Added b ((append words).kept b) (.own (terminated words)) (Buffer.append words b) := by
  unfold Buffer.append kept
  rw [Packed.last?_eq]
  change Added b (if b.written.getLast? = some 0 then _ else _) _ (if (b.written.getLast? == some 0) = true then _ else _)
  by_cases ended : b.written.getLast? = some 0
  · rw [if_pos ended, if_pos (by simpa using ended), write_eq_add]
    exact ((Addition.own (terminated words)).added b.unput).of_unput
  · rw [if_neg ended, if_neg (by simpa using ended), write_eq_add]
    exact (Addition.own (terminated words)).added b

theorem added (writing : Writing) (b : Buffer) : Added b (writing.kept b) writing.addition (writing.act b) := by
  have written (data : Bytes) : Added b b.written (.own data) (Buffer.write data b) := by
    rw [write_eq_add]
    exact (Addition.own data).added b
  cases writing with
  | copy other =>
    have same : (copy other).act = (Addition.own other.written).add := writePacked_eq_add other.filled
    exact same ▸ (Addition.own other.written).added b
  | append words => exact added_append words b
  | bytes | text | byte | short | long | single | coord | angle => exact written _

end Writing

theorem replaced (data : Bytes) (b : Buffer) : Replaced b data (Buffer.fill data b) := by
  have filled : Buffer.fill data b = (Addition.own data).add b.clear := by
    rw [← Writing.write_eq_add]
    rfl
  obtain ⟨steady, overflow_iff, oversized_iff, failed, fits, _⟩ := (Addition.own data).added b.clear
  have length : b.clear.written.length + (Addition.own data).length = data.length := Nat.zero_add _
  rw [← filled, capacity_clear] at overflow_iff oversized_iff fits
  rw [← filled] at steady failed
  rw [length] at overflow_iff fits
  constructor
  case steady => exact (steady_clear b).trans steady
  case overflow_iff => exact overflow_iff
  case oversized_iff => exact oversized_iff
  case failed =>
    intro fault t ended
    rw [(failed fault t ended).1]
    exact ⟨rfl, rfl⟩
  case fits => exact fits

namespace Edit

variable {build : Build} {b : Buffer} {edit : Edit}

theorem extend_eq_add (length : Nat) (b : Buffer) :
    (do let _ ← Buffer.extend length : Act Buffer Unit) b = (Addition.reserved length).add b := by
  cases room : makeRoom length b with
  | ok _ m =>
    have taken : Buffer.extend length b = .ok m.size (m.put (m.after length)) := Act.bind_of_ok room
    have added : (Addition.reserved length).add b = .ok () (m.put (m.after length)) := Act.bind_of_ok room
    rw [added]
    exact Act.bind_of_ok taken
  | error fault m =>
    have refused : Buffer.extend length b = .error fault m := Act.bind_of_error room
    have unadded : (Addition.reserved length).add b = .error fault m := Act.bind_of_error room
    rw [unadded]
    exact Act.bind_of_error refused

theorem act_reserve {length : UInt64} (inWord : b.size + length.toNat < UInt64.size) :
    (reserve length).act build b = (Addition.reserved length.toNat).add b := by
  rw [← extend_eq_add]
  have same : Buffer.reserve build length b = Buffer.extend length.toNat b := if_pos inWord
  unfold act
  simp only [bind, EStateM.bind, same]

theorem overrun {length : UInt64} (beyond : UInt64.size ≤ b.size + length.toNat) :
    Overrun build b length ((reserve length).act build b) := by
  have past : ¬ b.size + length.toNat < UInt64.size := Nat.not_lt.2 beyond
  cases build with
  | checked =>
    have stopped : Buffer.reserve .checked length b = .error .wordOverflow b := if_neg past
    exact Act.bind_of_error stopped
  | unchecked =>
    have went : Buffer.reserve .unchecked length b = .ok b.size (b.cut (b.size + length.toNat - UInt64.size)) :=
      if_neg past
    have word : length.toNat < UInt64.size := length.toNat_lt_size
    have ran : (reserve length).act .unchecked b = .ok () (b.cut (b.size + length.toNat - UInt64.size)) :=
      Act.bind_of_ok went
    have now := written_cut (b.size + length.toNat - UInt64.size) b
    have fewer : (b.cut (b.size + length.toNat - UInt64.size)).size < b.size := by
      rw [← length_written, now, List.length_take, length_written]
      omega
    exact ⟨_, ran, steady_cut _ b, now, fewer, overflowed_cut _ b⟩

theorem disciplined (inWord : edit.InWord b) : edit.Disciplined build b := by
  cases edit with
  | write writing => exact writing.added b
  | reserve length =>
    have added : Added b b.written (.reserved length.toNat) ((reserve length).act build b) := by
      rw [act_reserve inWord]
      exact (Addition.reserved length.toNat).added b
    exact added
  | fill data => exact replaced data b
  | clear => exact ⟨b.clear, rfl, steady_clear b, rfl, rfl⟩
  | restore snapshot => exact ⟨b.restore snapshot, rfl, steady_restore snapshot b, Packed.bytes_take _ _, rfl⟩

theorem Disciplined.steady (disciplined : edit.Disciplined build b) : Steady b (Act.final (edit.act build b)) := by
  cases edit with
  | write | reserve => exact Added.steady disciplined
  | fill data => exact Replaced.steady disciplined
  | clear | restore =>
    obtain ⟨t, ran, steady, _⟩ := disciplined
    rw [ran]
    exact steady

/-- What is asked for is too much for a word only where bytes are reserved. -/
theorem exists_of_not_inWord (beyond : ¬ edit.InWord b) :
    ∃ length, edit = .reserve length ∧ UInt64.size ≤ b.size + length.toNat := by
  cases edit with
  | reserve length => exact ⟨length, rfl, Nat.not_lt.1 beyond⟩
  | _ => exact absurd trivial beyond

theorem steady (build : Build) (edit : Edit) (b : Buffer) : Steady b (Act.final (edit.act build b)) := by
  by_cases inWord : edit.InWord b
  · exact (disciplined inWord).steady
  obtain ⟨length, rfl, beyond⟩ := exists_of_not_inWord inWord
  have overrun : Overrun build b length ((reserve length).act build b) := overrun beyond
  cases build with
  | checked =>
    rw [show (reserve length).act .checked b = _ from overrun]
    exact .refl b
  | unchecked =>
    obtain ⟨t, ran, steady, _⟩ := overrun
    rw [ran]
    exact steady

end Edit

/-- It is neither refused nor made room for. -/
theorem Overrun.undisciplined {build : Build} {b : Buffer} {length : UInt64} {outcome : EStateM.Result Fault Buffer Unit}
    (overrun : Overrun build b length outcome) (small : b.capacity < UInt64.size)
    (beyond : UInt64.size ≤ b.size + length.toNat) : ¬ Added b b.written (.reserved length.toNat) outcome := by
  intro added
  have kept : b.written.length = b.size := length_written b
  have full : b.capacity < b.written.length + (Addition.reserved length.toNat).length := by
    rw [kept]
    exact Nat.lt_of_lt_of_le small beyond
  have inside : b.size ≤ b.capacity := Nat.le_add_right _ _
  cases build with
  | checked => exact (added.failed _ _ overrun).2.elim nofun nofun
  | unchecked =>
    obtain ⟨t, rfl, _, written, _⟩ := overrun
    cases forgiving : b.forgiving with
    | false =>
      obtain ⟨_, refused⟩ := added.overflow_iff.2 ⟨forgiving, full⟩
      cases refused
    | true =>
      by_cases short : (Addition.reserved length.toNat).length ≤ b.capacity
      · obtain ⟨_, ⟨⟩, fresh, _⟩ := added.dropped forgiving full short
        have lengths := congrArg List.length (written.symm.trans fresh)
        simp only [Addition.content, List.drop_zero, List.length_take, length_memory, kept] at lengths
        have some : length.toNat ≤ b.capacity := short
        omega
      · obtain ⟨_, refused⟩ := added.oversized_iff.2 ⟨forgiving, Nat.not_le.1 short⟩
        cases refused

theorem steady_edited (build : Build) (history : List Edit) (b : Buffer) : Steady b (edited build history b) := by
  induction history generalizing b with
  | nil => exact .refl b
  | cons edit rest ih => exact (edit.steady build b).trans (ih _)

/-- After any history a message is as large as it was made, and every call comes out as it should exactly if it does
not ask for so many bytes that no word holds the size they would make. -/
theorem disciplined_iff_in_word (build : Build) (forgiving : Bool) (capacity : UInt64) (history : List Edit) :
    let b := edited build history (fresh forgiving capacity.toNat)
    b.forgiving = forgiving ∧ b.capacity = capacity.toNat ∧ b.memory.length = capacity.toNat ∧ b.size ≤ capacity.toNat ∧
      (∀ edit : Edit, edit.Disciplined build b ↔ edit.InWord b) ∧
      ∀ length : UInt64, UInt64.size ≤ b.size + length.toNat →
        Overrun build b length (Edit.act build (.reserve length) b) := by
  intro b
  have steady : Steady (fresh forgiving capacity.toNat) b := steady_edited build history _
  have capacity_eq : b.capacity = capacity.toNat := by
    rw [steady.capacity]
    cases forgiving <;> exact (Nat.zero_add _).trans (Nat.zero_add _)
  have forgiving_eq : b.forgiving = forgiving := by
    rw [steady.forgiving]
    cases forgiving <;> rfl
  have inside : b.size ≤ b.capacity := Nat.le_add_right _ _
  refine ⟨forgiving_eq, capacity_eq, (length_memory b).trans capacity_eq, capacity_eq ▸ inside, fun edit => ?_,
    fun length => Edit.overrun⟩
  refine ⟨fun disciplined => Classical.byContradiction fun not => ?_, Edit.disciplined⟩
  obtain ⟨length, rfl, beyond⟩ := Edit.exists_of_not_inWord not
  have small : b.capacity < UInt64.size := by
    rw [capacity_eq]
    exact capacity.toNat_lt_size
  have overrun : Overrun build b length (Edit.act build (.reserve length) b) := Edit.overrun beyond
  exact overrun.undisciplined small beyond disciplined

/-- A byte is written, and as many more are asked for as a word can count: the byte is lost, or the program stops. -/
example (build : Build) :
    let b := edited build [.write (.byte 1)] (fresh false 8)
    (Edit.act build (.reserve 0xFFFFFFFFFFFFFFFF) b = .error .wordOverflow b ∧ build = .checked) ∨
      (Act.final (Edit.act build (.reserve 0xFFFFFFFFFFFFFFFF) b)).written = [] ∧ build = .unchecked := by
  cases build
  · exact .inl ⟨rfl, rfl⟩
  · exact .inr ⟨by decide +kernel, rfl⟩

end GameHost.Message
