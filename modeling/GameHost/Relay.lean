import GameHost.Host

/-!
The smallest program with a shell: scripts are kept in memory, and lines for the server are only noted. A
detached relay has neither scripts nor a server.
-/
namespace GameHost

structure Relay where
  attached : Bool
  scripts : List (Text × Bytes)
  connected : Bool
  /-- The command name and the text after it of every line for the server, oldest first. -/
  forwarded : List (Text × Text)
  deriving DecidableEq, Repr

namespace Relay

def detached : Relay := ⟨false, [], false, []⟩

def ofScripts (scripts : List (Text × Bytes)) : Relay := ⟨true, scripts, false, []⟩

def forwardLine : Act (Host Empty Relay) Unit := fun h =>
  let line := h.shell.line
  if h.world.attached then
    .ok () { h with world.forwarded := h.world.forwarded ++ [(line.word 0, line.tail)] }
  else
    .ok () { h with shell := h.shell.print ("Can't \"" ++ line.word 0 ++ "\", not connected\n") }

instance : Program Empty Relay where
  script name relay := if relay.attached then relay.scripts.lookup name else none
  forward := forwardLine
  forwardsUnknown relay := relay.attached && relay.connected
  perform _ command := nomatch command

end Relay

end GameHost
