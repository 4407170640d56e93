import GameHost.Message.Buffer
import GameHost.Proofs.Act

/-!
Replacing the contents of a message. It works exactly when the new contents fit, whatever was there before
and whether or not the message may overflow.
-/
namespace GameHost.Message.Buffer

def holding (bytes : Bytes) (b : Buffer) : Buffer := b.clear.put (Packed.ofBytes bytes)

@[simp] theorem free_clear (b : Buffer) : b.clear.free = b.capacity := by
  have whole := capacity_clear b
  simp only [capacity, size, clear, show Packed.empty.size = 0 from rfl] at whole ⊢
  omega

@[simp] theorem written_holding (bytes : Bytes) (b : Buffer) : (b.holding bytes).written = bytes := by
  rw [holding, written_put, Packed.bytes_ofBytes]
  rfl

theorem capacity_holding {bytes : Bytes} {b : Buffer} (fits : bytes.length ≤ b.capacity) :
    (b.holding bytes).capacity = b.capacity := by
  rw [holding, capacity_put (by simpa using fits), capacity_clear]

theorem makeRoom_of_fits {length : Nat} {b : Buffer} (fits : length ≤ b.free) :
    makeRoom length b = .ok () b := by
  simp only [makeRoom, if_pos fits]

theorem makeRoom_clear_fits {length : Nat} {b after : Buffer} (made : makeRoom length b.clear = .ok () after) :
    length ≤ b.capacity := by
  simp only [makeRoom, free_clear, capacity_clear] at made
  split at made
  · assumption
  split at made
  · cases made
  split at made
  · cases made
  · omega

theorem fill_ok {bytes : Bytes} {b after : Buffer} :
    fill bytes b = .ok () after ↔ bytes.length ≤ b.capacity ∧ after = b.holding bytes := by
  constructor
  · intro filled
    obtain ⟨_, made, room, rest⟩ := Act.bind_ok.1 (show (makeRoom (Packed.ofBytes bytes).size >>= fun _ =>
      modify (put (Packed.ofBytes bytes))) b.clear = .ok () after from filled)
    have fits : bytes.length ≤ b.capacity := by
      simpa using makeRoom_clear_fits room
    rw [makeRoom_of_fits (by simpa using fits)] at room
    cases room
    cases rest
    exact ⟨fits, rfl⟩
  · rintro ⟨fits, rfl⟩
    have room : makeRoom (Packed.ofBytes bytes).size b.clear = .ok () b.clear :=
      makeRoom_of_fits (by simpa using fits)
    exact Act.bind_of_ok room

end GameHost.Message.Buffer
