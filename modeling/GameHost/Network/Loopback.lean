import GameHost.Message.Buffer

/-!
A network inside the program. Connections and messages arrive when the program around it says so, and what
is sent is kept for it to look at.
-/
namespace GameHost.Network

/-- One end of a connection. Session numbers of live connections are never zero. -/
structure Socket where
  session : Int64
  address : Text
  deriving DecidableEq, Repr

/-- A message on its way to a session. -/
structure Delivery where
  session : Int64
  kind : Int32
  data : Bytes
  deriving DecidableEq, Repr

structure Loopback where
  /-- The number of the next connection. -/
  next : Int64
  /-- Connections that arrived and were not yet accepted, oldest first. -/
  arriving : List Socket
  /-- Messages not yet received, oldest first. -/
  inbox : List Delivery
  /-- Everything sent, reliable or not, the latest first. -/
  outbox : List (Int64 × Bytes)
  /-- Whether reliable messages can be sent now. -/
  ready : Bool
  deriving DecidableEq, Repr

namespace Loopback

def empty : Loopback := ⟨1, [], [], [], true⟩

/-- A connection arrives. -/
def connect (address : Text) (l : Loopback) : Socket × Loopback :=
  let socket : Socket := ⟨l.next, address⟩
  (socket, { l with next := l.next + 1, arriving := l.arriving ++ [socket] })

/-- A message arrives. -/
def deliver (delivery : Delivery) (l : Loopback) : Loopback :=
  { l with inbox := l.inbox ++ [delivery] }

def accept (l : Loopback) : Option Socket × Loopback :=
  (l.arriving.head?, { l with arriving := l.arriving.tail })

/-- Whether a message is for a session. -/
def isFor (session : Int64) (delivery : Delivery) : Bool := delivery.session == session

/-- The oldest message for a session, taken out of the inbox. -/
def take (session : Int64) (l : Loopback) : Option Delivery × Loopback :=
  (l.inbox.find? (isFor session), { l with inbox := l.inbox.eraseP (isFor session) })

def send (session : Int64) (data : Bytes) (l : Loopback) : Loopback :=
  { l with outbox := (session, data) :: l.outbox }

/-- Everything sent, in order. -/
def sent (l : Loopback) : List (Int64 × Bytes) := l.outbox.reverse

@[simp] theorem sent_send (session : Int64) (data : Bytes) (l : Loopback) :
    (l.send session data).sent = l.sent ++ [(session, data)] := by
  simp [send, sent]

/-- Forget the messages that wait for a session. -/
def close (session : Int64) (l : Loopback) : Loopback :=
  { l with inbox := l.inbox.filter (! isFor session ·) }

end Loopback

end GameHost.Network
