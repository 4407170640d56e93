import GameHost.Client.Frame
import GameHost.Proofs.Replay.Recorder

/-!
What a session is put through: turns of the host, and what arrives at its loopback between them.
-/
namespace GameHost
open GameHost.Client (change)
open GameHost.Network (Driver)
open GameHost.Replay

/-- What is done with a session from outside. -/
inductive Turn where
  /-- Queue console text. -/
  | enter (text : Text)
  /-- Run a line at once. -/
  | run (text : Text) (source : Source)
  | frame (seconds : Double)
  | shutDown
  deriving DecidableEq, Repr

def Turn.act : Turn → Act Session Unit
  | .enter text => Host.onShell (Shell.addText text)
  | .run text source => Host.runLine text source
  | .frame seconds => Client.frame seconds
  | .shutDown => Client.shutDown

def Turn.states : List Turn → Act Session (List Session)
  | [] => return []
  | turn :: rest => do
    turn.act
    let now ← get
    let later ← states rest
    return now :: later

/-- A turn, or something that happens to the loopback between turns. -/
inductive Input where
  | host (turn : Turn)
  | happen (happening : Happening)
  deriving DecidableEq, Repr

namespace Input

def states : List Input → Act Session (List Session)
  | [] => return []
  | .host turn :: rest => do
    turn.act
    let now ← get
    let later ← states rest
    return now :: later
  | .happen happening :: rest => do
    change fun c => { c with net := c.net.map (Driver.onLoopback happening.change) }
    states rest

def turns : List Input → List Turn
  | [] => []
  | .host turn :: rest => turn :: turns rest
  | .happen _ :: rest => turns rest

def arrivals : List Input → Nat
  | [] => 0
  | .host _ :: rest => arrivals rest
  | .happen happening :: rest => arrivals rest + happening.arrivals

/-- Addresses are such that a recording keeps them, and no message is of a kind below that of a lost connection. -/
def Proper : Input → Prop
  | .host _ => True
  | .happen (.deliver delivery) => -1 ≤ delivery.kind
  | .happen happening => happening.Proper

instance : (input : Input) → Decidable input.Proper
  | .host _ => isTrue trivial
  | .happen (.deliver delivery) => inferInstanceAs (Decidable (-1 ≤ delivery.kind))
  | .happen (.arrive address) => inferInstanceAs (Decidable (Kept address))
  | .happen (.setReady _) => isTrue trivial

/-- The bytes of a message that arrives and does not count as one. -/
def Uncounted (inputs : List Input) (bytes : Bytes) : Prop :=
  ∃ delivery, .happen (.deliver delivery) ∈ inputs ∧ ¬ 0 < delivery.kind ∧ delivery.data = bytes

end Input

end GameHost
