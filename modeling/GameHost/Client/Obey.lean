import GameHost.Client.Connection
import GameHost.Message.Order

/-!
Doing what the server's messages say, order by order. A message that makes no sense ends the game; the orders
before the one at fault have been carried out.
-/
namespace GameHost.Client
open GameHost.Message (Order)

/-- Take down the server's time; the one before it is kept too. -/
def heed (seconds : Single) (c : Client) : Client :=
  { c with view.serverTimes := (Double.ofSingle seconds, c.view.serverTimes.1) }

/-- Signing on goes up, and ends with its last stage. -/
def signonInOrder (number signon : Int) : Bool := signon < number && number ≤ signons

def obey : List Order → Act Session Unit
  | [] => pure ()
  | .nothing :: rest => obey rest
  | .time seconds :: rest => do
    change (heed seconds)
    obey rest
  | .print text :: rest => do
    print text
    obey rest
  | .run text :: rest => do
    Host.onShell (Shell.addText text)
    obey rest
  | .signon number :: rest => do
    let c ← ask
    if signonInOrder number c.signon then
      change fun c => { c with signon := number }
      obey rest
    else
      gameError ("Received signon " ++ Text.ofInt number ++ " when at " ++ Text.ofInt c.signon)
  | .leave :: _ => endGame
  | .illegible :: _ => gameError "CL_ParseServerMessage: Illegible server message"
  | .broken :: _ => gameError "CL_ParseServerMessage: Bad server message"

/-- Do what the last message says. -/
def obeyMessage : Act Session Unit := do obey (Order.ofBytes (← ask).incoming.written)

end GameHost.Client
