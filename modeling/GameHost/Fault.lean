import GameHost.Replay.Record

/-!
What can stop the host. Everything that a player can cause in normal use is told on the console instead;
a fault ends the operation under way.
-/
namespace GameHost

/-- Why a file could not be opened, read or written. -/
inductive StorageFault where
  | missing
  | folder
  | notFolder
  | nameTooLong
  | full
  | nulInName
  | cutShort
  deriving DecidableEq, Repr

def StorageFault.message : StorageFault → Text
  | .missing => "No such file or directory (os error 2)"
  | .folder => "Is a directory (os error 21)"
  | .notFolder => "Not a directory (os error 20)"
  | .nameTooLong => "File name too long (os error 36)"
  | .full => "No space left on device (os error 28)"
  | .nulInName => "file name contained an unexpected NUL byte"
  | .cutShort => "failed to fill whole buffer"

inductive Fault where
  /-- A write did not fit into a message that must not lose data. -/
  | overflow
  /-- A single write is longer than the whole message may be. -/
  | oversized (length : Nat)
  | frameTooLong (length : Int32)
  | frameNegative (length : Int32)
  /-- A replayed session asked for something else than was recorded. -/
  | diverged (asked found : Replay.Record)
  /-- A recorded message has an impossible length. -/
  | messageLength (length : Int32)
  | unknownOperation (code : Int32)
  | recordingEnded
  | storage (cause : StorageFault)
  /-- Command text that still had lines to run when the budget for one frame was used up. -/
  | endless
  /-- A sum of sizes is larger than any machine word. The whole program stops with it. -/
  | wordOverflow
  deriving DecidableEq, Repr

def Fault.message : Fault → Text
  | .overflow => "SZ_GetSpace: overflow without allowoverflow set"
  | .oversized length => "SZ_GetSpace: " ++ Text.ofNat length ++ " is > full buffer size"
  | .frameTooLong length => "Demo message > MAX_MSGLEN (" ++ Text.ofInt length.toInt ++ ")"
  | .frameNegative length =>
    "Demo message has negative length (" ++ Text.ofInt length.toInt ++ ")"
  | .diverged asked found =>
    "VCR mismatch: " ++ asked.describe ++ ", recorded " ++ found.describe
  | .messageLength length => "VCR mismatch: bad message length " ++ Text.ofInt length.toInt
  | .unknownOperation code => "VCR_ReadNext: bad op " ++ Text.ofInt code.toInt
  | .recordingEnded => "=== END OF PLAYBACK ==="
  | .storage cause => cause.message
  | .endless => "command text without end"
  | .wordOverflow => "attempt to add with overflow"

/-- An action on a state: it changes the state and gives a result or stops with a fault. What it changed
before the fault stays changed. -/
abbrev Act (σ α : Type) := EStateM Fault σ α

/-- Run an action on a part of the state. -/
def Act.within (view : τ → σ) (replace : σ → τ → τ) (act : Act σ α) : Act τ α := fun state =>
  match act (view state) with
  | .ok result part => .ok result (replace part state)
  | .error fault part => .error fault (replace part state)

def Act.first (act : Act σ α) : Act (σ × τ) α := act.within Prod.fst fun part pair => (part, pair.2)

def Act.second (act : Act τ α) : Act (σ × τ) α := act.within Prod.snd fun part pair => (pair.1, part)

end GameHost
