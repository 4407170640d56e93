import GameHost.Proofs.Lockstep.Commands

/-!
Speaking to the driver, over a recorder and over a player of its recording: connections are taken up, commands
are sent and messages are received alike.
-/
namespace GameHost.Lockstep
open GameHost.Client (ask ask_at change)
open GameHost.Message (Buffer)
open GameHost.Network (Driver Socket)
open GameHost.Replay

def asking {α : Type} (request : Act Driver α) : Act Session α := fun s =>
  match s.world.net with
  | some net => Client.exchange net request s
  | none => .error .recordingEnded s

def receiving (socket : Socket) : Act Session Int32 := fun s =>
  match s.world.net with
  | some net => Client.receive net socket s
  | none => .error .recordingEnded s

section

variable {α : Type} (s : Session) (incoming : Buffer)

theorem exchange_of_ok {net other d : Driver} {request : Act Driver α} {result : α}
    (asked : request net = .ok result d) :
    Client.exchange net request (s.over other incoming) = .ok result (s.over d incoming) := by
  have inner : Client.within (fun c => c.supplied net) (fun net c => { c with net := some net }) request
      (s.over other incoming) = .ok result (s.over d incoming) := by
    simp only [Client.within, Act.within, Host.over, Client.over, Client.supplied, asked]
  exact Act.bind_of_ok inner

theorem exchange_ok {net other : Driver} {request : Act Driver α} {result : α} {t : Session}
    (ran : Client.exchange net request (s.over other incoming) = .ok result t) :
    ∃ d, request net = .ok result d ∧ t = s.over d incoming := by
  obtain ⟨_, m, inner, rest⟩ := Act.bind_ok.1 ran
  obtain ⟨d, asked, rfl⟩ := Act.within_ok.1 inner
  cases rest
  exact ⟨d, asked, rfl⟩

theorem receive_of_ok {net other d : Driver} {socket : Socket} {kind : Int32} {last : Buffer}
    (received : net.receive socket incoming = .ok kind (d, last)) :
    Client.receive net socket (s.over other incoming) = .ok kind (s.over d last) := by
  have inner : Client.within (fun c => (c.supplied net, c.incoming))
      (fun left c => { c with net := some left.1, incoming := left.2 }) (fun held => held.1.receive socket held.2)
      (s.over other incoming) = .ok kind (s.over d last) := by
    simp only [Client.within, Act.within, Host.over, Client.over, Client.supplied, received]
  exact Act.bind_of_ok inner

theorem receive_ok {net other : Driver} {socket : Socket} {kind : Int32} {t : Session}
    (ran : Client.receive net socket (s.over other incoming) = .ok kind t) :
    ∃ d last, net.receive socket incoming = .ok kind (d, last) ∧ t = s.over d last := by
  obtain ⟨_, m, inner, rest⟩ := Act.bind_ok.1 ran
  obtain ⟨⟨d, last⟩, received, rfl⟩ := Act.within_ok.1 inner
  cases rest
  exact ⟨d, last, received, rfl⟩

end

variable {left : Bytes → Prop} {count : Nat} {α : Type}

namespace Tracks

theorem asking {request : Act Driver α}
    (repeats : ∀ (x : Recorder) r d, x.Sound count → request x.driver = .ok r d →
      ∃ y : Recorder, d = y.driver ∧ x.Onward count y ∧ Repeated x y request r) :
    Tracks left count (asking request) := by
  intro u steady result t ran
  obtain ⟨d, asked, rfl⟩ := exchange_ok _ _ ran
  obtain ⟨y, rfl, onward, entries, data, follow⟩ := repeats _ _ _ steady.sound asked
  refine ⟨⟨u.session, y, u.incoming⟩, rfl, rfl, onward.clock, ⟨onward.sound, steady.room, ?_⟩, entries, data, ?_⟩
  · exact fun delivery member => steady.inbox delivery (onward.inbox delivery member)
  · intro _ later p incoming beside _
    obtain ⟨q, again, follows⟩ := follow p later beside.follows
    exact ⟨q, incoming, exchange_of_ok _ _ again, ⟨follows, beside.capacity, beside.content⟩, trivial⟩

def takeUp : Option Socket → Act Session Unit
  | none => pure ()
  | some socket => change fun c => { c with
      view := View.fresh, socket := some socket, connected := true, signon := 0
      outgoing := c.outgoing.clear }

theorem checkConnection : Tracks left count Client.checkConnection := by
  have checked : Tracks left count (ask >>= fun c =>
      if c.playing then pure () else Lockstep.asking Driver.check >>= takeUp) := by
    refine ask_bind (fun _ _ _ => rfl) fun c => ?_
    split
    · exact of_blind (.pure _)
    · refine bind (asking fun x r d sound ran => check_repeated sound ran) fun socket => ?_
      cases socket with
      | none => exact of_blind (.pure _)
      | some socket =>
        unfold takeUp
        exact of_blind (.change (fun _ _ _ => rfl) (fun _ => rfl))
  apply checked.recast
  intro s net incoming
  unfold Client.checkConnection
  rw [ask_at, ask_at]
  cases playing : (s.over net incoming).world.playing with
  | true => rfl
  | false => rfl

def submit (socket : Socket) (commands : Bytes) : Act Session Unit := do
  if ← Lockstep.asking (Driver.canSend socket) then
    if (← Lockstep.asking (Driver.send socket commands)) == -1 then
      Client.gameError "CL_WriteToServer: lost server connection"
    else change fun c => { c with outgoing := c.outgoing.clear }

theorem submit_tracks (socket : Socket) (commands : Bytes) : Tracks left count (submit socket commands) := by
  unfold submit
  refine bind (asking fun x r d sound ran => canSend_repeated socket sound ran) fun ready => ?_
  split
  · refine bind (asking fun x r d sound ran => send_repeated socket commands sound ran) fun result => ?_
    split
    · exact gameError _
    · exact of_blind (.change (fun _ _ _ => rfl) (fun _ => rfl))
  · exact of_blind (.pure _)

/-- Between the two requests of a submission the session's driver is the one that the first request left. -/
theorem submit_over (socket : Socket) (commands : Bytes) (s : Session) (net : Driver) (incoming : Buffer) :
    (do
      if ← Client.exchange net (Driver.canSend socket) then
        let net := (← ask).net.getD net
        if (← Client.exchange net (Driver.send socket commands)) == -1 then
          Client.gameError "CL_WriteToServer: lost server connection"
        else change fun c => { c with outgoing := c.outgoing.clear } : Act Session Unit) (s.over net incoming) =
      submit socket commands (s.over net incoming) := by
  have own : Lockstep.asking (Driver.canSend socket) (s.over net incoming) =
      Client.exchange net (Driver.canSend socket) (s.over net incoming) := rfl
  unfold submit
  cases asked : Client.exchange net (Driver.canSend socket) (s.over net incoming) with
  | error fault m => rw [Act.bind_of_error asked, Act.bind_of_error (own.trans asked)]
  | ok ready m =>
    rw [Act.bind_of_ok asked, Act.bind_of_ok (own.trans asked)]
    obtain ⟨d, _, rfl⟩ := exchange_ok s incoming asked
    cases ready with
    | true => rfl
    | false => rfl

theorem sendCommands : Tracks left count Client.sendCommands := by
  have sent : Tracks left count (ask >>= fun c =>
      if c.playing || c.outgoing.size == 0 then pure ()
      else if c.outgoing.overflowed then do
        Client.print "CL_SendCmd: message overflowed, dropped\n"
        change fun c => { c with outgoing := c.outgoing.clear }
      else c.socket.elim (pure ()) fun socket => submit socket c.outgoing.written) := by
    refine ask_bind (fun _ _ _ => rfl) fun c => ?_
    split
    · exact of_blind (.pure _)
    · split
      · exact bind (of_blind (.print _)) fun _ => of_blind (.change (fun _ _ _ => rfl) (fun _ => rfl))
      · cases c.socket with
        | none => exact of_blind (.pure _)
        | some socket => exact submit_tracks socket _
  apply sent.recast
  intro s net incoming
  unfold Client.sendCommands
  rw [ask_at, ask_at]
  dsimp only
  split
  · rfl
  · split
    · rfl
    · cases here : (s.over net incoming).world.socket with
      | none => rfl
      | some socket => exact submit_over socket _ s net incoming

end Tracks

end GameHost.Lockstep
