import GameHost.Proofs.Client.Aside
import GameHost.Proofs.Client.Core
import GameHost.Proofs.Replay.Recorder

/-!
What leads from the client to its server: the commands that wait, the connection, and what a loopback was given to
send. Only a few actions touch any of it; whatever else the client does goes unheard.
-/
namespace GameHost
open GameHost.Message (Buffer)
open GameHost.Network (Socket Driver)
open GameHost.Replay

namespace Network

/-- All that was sent, if it is a loopback that keeps it. -/
abbrev Ledger := Option (List (Int64 × Bytes))

def Ledger.add (more : List (Int64 × Bytes)) (ledger : Ledger) : Ledger := ledger.map (· ++ more)

theorem Ledger.add_nil (ledger : Ledger) : ledger.add [] = ledger := by
  cases ledger <;> simp [add]

theorem Ledger.add_add (more later : List (Int64 × Bytes)) (ledger : Ledger) :
    (ledger.add more).add later = ledger.add (more ++ later) := by
  cases ledger <;> simp [add]

/-- What is on its way after a request to send and its answer. -/
def taken (socket : Socket) (data : Bytes) (answer : Int32) : List (Int64 × Bytes) :=
  if answer = 1 then [(socket.session, data)] else []

namespace Driver

def ledger (net : Driver) : Ledger := net.loopback?.map Loopback.sent

variable (net : Driver)

theorem ledger_frame (time : Double) : (net.frame time).ledger = net.ledger := by
  induction net with
  | loopback network => rfl
  | player recording => rfl
  | recorder tape inner ih => exact ih

theorem ledger_supply (data : Packed) : (net.supply data).ledger = net.ledger := by
  induction net with
  | loopback network => rfl
  | player recording => rfl
  | recorder tape inner ih => exact ih

theorem ledger_close (socket : Socket) : (net.close socket).ledger = net.ledger := by
  induction net with
  | loopback network => rfl
  | player recording => rfl
  | recorder tape inner ih => exact ih

theorem ledger_happening (happening : Happening) : (net.onLoopback happening.change).ledger = net.ledger := by
  induction net with
  | loopback network => cases happening <;> rfl
  | player recording => rfl
  | recorder tape inner ih => exact ih

theorem ledger_check : (Act.final net.check).ledger = net.ledger := by
  induction net with
  | loopback network => rfl
  | player recording =>
    unfold check
    cases Player.check recording <;> rfl
  | recorder tape inner ih =>
    unfold check
    revert ih
    cases inner.check <;> exact id

theorem ledger_canSend (socket : Socket) : (Act.final (net.canSend socket)).ledger = net.ledger := by
  induction net with
  | loopback network => rfl
  | player recording =>
    unfold canSend
    cases Player.canSend socket recording <;> rfl
  | recorder tape inner ih =>
    unfold canSend
    revert ih
    cases inner.canSend socket <;> exact id

theorem ledger_receive (socket : Socket) (incoming : Buffer) :
    (Act.final (net.receive socket incoming)).1.ledger = net.ledger := by
  induction net with
  | loopback network =>
    unfold receive
    cases taken : network.take socket.session with
    | mk delivery after =>
      have same : after.sent = network.sent := (congrArg (fun pair => pair.2.sent) taken).symm
      cases delivery with
      | none => exact congrArg some same
      | some delivery =>
        dsimp only
        cases Buffer.fill delivery.data incoming <;> exact congrArg some same
  | player recording =>
    unfold receive
    cases Player.receive socket (recording, incoming) <;> rfl
  | recorder tape inner ih =>
    unfold receive
    revert ih
    cases inner.receive socket incoming <;> exact id

theorem ledger_sendUnreliable (socket : Socket) (data : Bytes) :
    (net.sendUnreliable socket data).2.ledger = net.ledger.add [(socket.session, data)] := by
  induction net with
  | loopback network => exact congrArg some (network.sent_send _ _)
  | player recording => rfl
  | recorder tape inner ih => exact ih

theorem ledger_send {socket : Socket} {data : Bytes} {answer : Int32} {after : Driver}
    (sent : net.send socket data = .ok answer after) :
    after.ledger = net.ledger.add (taken socket data answer) := by
  induction net generalizing after with
  | loopback network =>
    unfold send at sent
    split at sent
    · cases sent
      exact congrArg some (network.sent_send _ _)
    · cases sent
      simp [ledger, loopback?, taken, Ledger.add]
  | player recording =>
    unfold send at sent
    cases asked : Player.send socket recording with
    | ok result player =>
      rw [asked] at sent
      cases sent
      rfl
    | error fault player =>
      rw [asked] at sent
      cases sent
  | recorder tape inner ih =>
    unfold send at sent
    cases asked : inner.send socket data with
    | ok result driver =>
      rw [asked] at sent
      cases sent
      have inside : driver.ledger = inner.ledger.add (taken socket data answer) := ih asked
      exact inside
    | error fault driver =>
      rw [asked] at sent
      cases sent

end Driver

end Network

namespace Client
open GameHost.Network (Ledger taken)

structure Outlet where
  queue : Buffer
  socket : Option Socket
  /-- What the driver has of the messages sent, if there is a driver. -/
  ledger : Option Ledger
  deriving DecidableEq

def outlet (s : Session) : Outlet :=
  { queue := s.world.outgoing, socket := s.world.socket, ledger := s.world.net.map Driver.ledger }

/-- An action that leaves it as it is, however it ends. -/
abbrev Unheard {α : Type} (act : Act Session α) : Prop := Act.Keeps outlet act

namespace Unheard

variable {σ α : Type}

theorem change {f : Client → Client} (same : ∀ s : Session, outlet { s with world := f s.world } = outlet s) :
    Unheard (change f) := same

theorem onShell (f : Shell ClientCommand → Shell ClientCommand) : Unheard (Host.onShell f : Act Session Unit) :=
  fun _ => rfl

theorem print (text : Text) : Unheard (print text) := onShell _

theorem finishTiming : Unheard finishTiming :=
  .ask_bind fun _ => .bind (change fun _ => rfl) fun _ => print _

theorem stopPlayback : Unheard stopPlayback := by
  apply Act.Keeps.ask_bind
  intro c
  split
  · apply Act.Keeps.bind (change fun _ => rfl)
    intro _
    split
    · exact finishTiming
    · exact .pure _
  · exact .pure _

theorem onDemoFile (file : Writer) (act : FileAct Unit) : Unheard (onDemoFile file act) := by
  apply Act.Keeps.ask_bind
  intro c
  split
  · exact .bind (change fun _ => rfl) fun _ => .pure _
  · exact .bind (change fun _ => rfl) fun _ => .pure _

theorem recordingFailed (fault : StorageFault) : Unheard (recordingFailed fault) :=
  .bind (print _) fun _ => change fun _ => rfl

theorem recordMessage : Unheard recordMessage := by
  apply Act.Keeps.ask_bind
  intro c
  split
  · apply Act.Keeps.bind (onDemoFile _ _)
    intro fault
    cases fault with
    | none => exact .pure _
    | some fault => exact recordingFailed fault
  · exact .pure _

theorem stopRecording : Unheard stopRecording := by
  apply Act.Keeps.ask_bind
  intro c
  split
  · apply Act.Keeps.bind (onDemoFile _ _)
    intro fault
    cases fault with
    | none => exact .bind (change fun _ => rfl) fun _ => print _
    | some fault => exact recordingFailed fault
  · exact print _

theorem beginRecording (path : Path) (track : Int32) : Unheard (beginRecording path track) := by
  apply Act.Keeps.bind (print _)
  intro _
  apply Act.Keeps.ask_bind
  intro c
  split
  · exact .bind (change fun _ => rfl) fun _ => change fun _ => rfl
  · exact .bind (change fun _ => rfl) fun _ => print _

theorem writeConfig : Unheard writeConfig := by
  apply Act.Keeps.get_bind
  intro s
  dsimp only
  split
  · exact change fun _ => rfl
  · exact .bind (change fun _ => rfl) fun _ => print _

theorem onTapeFile (file : Writer) (act : FileAct Unit) : Unheard (onTapeFile file act) := by
  apply Act.Keeps.ask_bind
  intro c
  split
  · exact change fun _ => rfl
  · exact .bind (change fun _ => rfl) fun _ => .throw _

theorem saveTape : Unheard saveTape := by
  intro s
  unfold Client.saveTape
  rw [ask_at]
  cases taping : s.world.tapeFile with
  | none => rfl
  | some file =>
    cases net : s.world.net with
    | none => rfl
    | some driver =>
      cases driver with
      | loopback network => rfl
      | player recording => rfl
      | recorder tape inner =>
        let m : Session := { s with world := { s.world with net := some (.recorder { tape with pieces := [] } inner) } }
        have same : outlet m = outlet s :=
          congrArg (fun net => { outlet s with ledger := Option.map Driver.ledger net }) net.symm
        exact (onTapeFile file _ m).trans same

theorem finishTape : Unheard finishTape := by
  apply Act.Keeps.ask_bind
  intro c
  split
  · exact .pure _
  · exact onTapeFile _ _

theorem queueNextDemo : Unheard queueNextDemo := by
  apply Act.Keeps.ask_bind
  intro c
  split
  · split
    · exact .bind (print _) fun _ => change fun _ => rfl
    · exact .bind (onShell _) fun _ => change fun _ => rfl
  · exact .pure _

theorem demoNamed (usage : Text) : Unheard (demoNamed usage) := by
  apply Act.Keeps.line_bind
  intro line
  split
  · exact .pure _
  · exact .bind (print _) fun _ => .pure _

theorem startDemos : Unheard startDemos := by
  have loop (demos : List Text) : Unheard (do
      Client.print (Text.ofNat demos.length ++ " demo(s) in loop\n")
      Client.change fun c => { c with demos := demos.map (List.take Client.loopNameLimit) }
      let c ← ask
      if c.nextDemo != -1 && !c.playing then
        Client.change fun c => { c with nextDemo := 0 }
        Client.queueNextDemo
      else Client.change fun c => { c with nextDemo := -1 }) := by
    refine .bind (print _) fun _ => .bind (change fun _ => rfl) fun _ => .ask_bind fun c => ?_
    split
    · exact .bind (change fun _ => rfl) fun _ => queueNextDemo
    · exact change fun _ => rfl
  apply Act.Keeps.line_bind
  intro line
  dsimp only
  split
  · exact .bind (print _) fun _ => loop _
  · exact loop _

theorem within {view : Client → σ} {replace : σ → Client → Client} {act : Act σ α}
    (same : ∀ part s, outlet { s with world := replace part s.world } = outlet s) : Unheard (within view replace act) :=
  Act.Keeps.within same

end Unheard

section

variable {s : Session} {net : Driver} {α : Type}

theorem ledger_supplied (c : Client) (net : Driver) : (c.supplied net).ledger = net.ledger := by
  unfold supplied
  split
  · exact net.ledger_supply _
  · rfl

/-- Of all that a driver is asked only its ledger shows. -/
theorem outlet_exchange (net : Driver) (request : Act Driver α) (s : Session) :
    outlet (Act.final (exchange net request s)) =
      { outlet s with ledger := some (Act.final (request (s.world.supplied net))).ledger } := by
  unfold exchange
  rw [Act.Keeps.final_bind fun _ => .bind Unheard.saveTape fun _ => .pure _]
  unfold Client.within Act.within
  dsimp only
  cases request (s.world.supplied net) <;> rfl

theorem exchange_unheard {request : Act Driver α} (there : s.world.net = some net)
    (blind : ∀ driver, (Act.final (request driver)).ledger = driver.ledger) :
    outlet (Act.final (exchange net request s)) = outlet s := by
  rw [outlet_exchange, blind, ledger_supplied]
  unfold outlet
  rw [there]
  rfl

theorem receive_unheard (there : s.world.net = some net) (socket : Socket) :
    outlet (Act.final (receive net socket s)) = outlet s := by
  have same := (s.world.supplied net).ledger_receive socket s.world.incoming
  rw [ledger_supplied] at same
  unfold receive
  rw [Act.Keeps.final_bind fun _ => .bind Unheard.saveTape fun _ => .pure _]
  unfold Client.within Act.within outlet
  rw [there]
  dsimp only
  cases got : (s.world.supplied net).receive socket s.world.incoming with
  | ok kind pair =>
    rw [got] at same
    exact congrArg (fun ledger => { outlet s with ledger := some ledger }) same
  | error fault pair =>
    rw [got] at same
    exact congrArg (fun ledger => { outlet s with ledger := some ledger }) same

theorem exchange_ok {request : Act Driver α} {a : α} {m : Session} (ran : exchange net request s = .ok a m) :
    ∃ driver, request (s.world.supplied net) = .ok a driver ∧ outlet m = { outlet s with ledger := some driver.ledger } := by
  obtain ⟨result, n, asked, rest⟩ := Act.bind_ok.1 ran
  obtain ⟨_, _, _, rest⟩ := Act.bind_ok.1 rest
  cases rest
  obtain ⟨driver, asked, _⟩ := Act.within_ok.1 asked
  have after := outlet_exchange net request s
  rw [ran, asked] at after
  exact ⟨driver, asked, after⟩

theorem net_exchange {request : Act Driver α} {a : α} {m : Session} (ran : exchange net request s = .ok a m) :
    ∃ after, m.world.net = some after := by
  obtain ⟨driver, _, after⟩ := exchange_ok ran
  obtain ⟨driver, there, _⟩ := Option.map_eq_some_iff.1 (congrArg Outlet.ledger after)
  exact ⟨driver, there⟩

theorem canSend_same {socket : Socket} {ready : Bool} {m : Session} (there : s.world.net = some net)
    (ran : exchange net (Driver.canSend socket) s = .ok ready m) : outlet m = outlet s := by
  have same : outlet (Act.final (exchange net (Driver.canSend socket) s)) = outlet s :=
    exchange_unheard there fun driver => driver.ledger_canSend socket
  rw [ran] at same
  exact same

theorem outlet_send {socket : Socket} {data : Bytes} {answer : Int32} {m : Session} (there : s.world.net = some net)
    (ran : exchange net (Driver.send socket data) s = .ok answer m) :
    outlet m = { outlet s with ledger := (outlet s).ledger.map (Ledger.add (taken socket data answer)) } := by
  obtain ⟨driver, asked, after⟩ := exchange_ok ran
  have now : (outlet s).ledger = some net.ledger := congrArg (Option.map Driver.ledger) there
  rw [after, now, Driver.ledger_send _ asked, ledger_supplied]
  rfl

theorem hangUp_outlet (s : Session) : ∃ t, hangUp s = .ok () t ∧ (outlet t = outlet s ∨
    ∃ socket, s.world.socket = some socket ∧
      outlet t = { outlet s with ledger := (outlet s).ledger.map (Ledger.add [(socket.session, farewell)]) }) := by
  unfold hangUp
  rw [ask_at]
  cases there : s.world.net with
  | none => exact ⟨s, rfl, .inl rfl⟩
  | some net =>
    cases linked : s.world.socket with
    | none => exact ⟨s, rfl, .inl rfl⟩
    | some socket =>
      refine ⟨_, rfl, .inr ⟨socket, rfl, ?_⟩⟩
      have now : (outlet s).ledger = some net.ledger := congrArg (Option.map Driver.ledger) there
      have told : ((net.sendUnreliable socket farewell).2.close socket).ledger =
          net.ledger.add [(socket.session, farewell)] := by
        rw [Driver.ledger_close, Driver.ledger_sendUnreliable]
      rw [now]
      exact congrArg (fun ledger => { outlet s with ledger := some ledger }) told

theorem Unheard.onNet {f : Driver → Driver} (same : ∀ net, (f net).ledger = net.ledger) :
    Unheard (Client.change fun c => { c with net := c.net.map f }) := by
  intro s
  have ledger : (s.world.net.map f).map Driver.ledger = s.world.net.map Driver.ledger := by
    cases s.world.net with
    | none => rfl
    | some net => exact congrArg some (same net)
  exact congrArg (fun ledger => { outlet s with ledger }) ledger

theorem Unheard.tellTime (time : Double) : Unheard (tellTime time) := Unheard.onNet fun net => net.ledger_frame time

end

end Client

end GameHost
