import GameHost.Proofs.Lockstep.Messages

/-!
A whole frame over a recorder and over a player of its recording.
-/
namespace GameHost.Lockstep
open GameHost.Client (ask ask_at change)
open GameHost.Message (Buffer Order)
open GameHost.Network (Driver Socket)
open GameHost.Replay

variable {left : Bytes → Prop} {count : Nat}

/-- How many bytes of the demo that plays are still to be read. -/
def toPlay (c : Client) : Nat :=
  match c.demo with
  | .playing file => file.left c.disk
  | _ => 0

theorem toPlay_of_quiet {c : Client} (quiet : c.playing = false) : toPlay c = 0 := by
  cases demo : c.demo with
  | playing file => simp [Client.playing, demo, Demo.Activity.isPlaying] at quiet
  | idle => simp [toPlay, demo]
  | recording file => simp [toPlay, demo]

def hold (message : Bytes) : Act Session Unit :=
  Client.within Client.incoming (fun incoming c => { c with incoming }) (Buffer.fill message)

theorem hold_of_fits {message : Bytes} {incoming : Buffer} (fits : message.length ≤ incoming.capacity)
    (s : Session) (net : Driver) :
    hold message (s.over net incoming) = .ok () (s.over net (incoming.holding message)) := by
  have filled : Buffer.fill message incoming = .ok () (incoming.holding message) := Buffer.fill_ok.2 ⟨fits, rfl⟩
  simp only [hold, Client.within, Act.within, Host.over, Client.over, filled]

theorem hold_tracks {ι : Type} (message : Bytes) (u : Live) (before : ι → Player → Prop) :
    TracksFrom left count u (fun i p _ => before i p) (hold message) (fun _ => hold message)
      (fun _ v i q last => last.written = v.incoming.written ∧ v.session = u.session ∧ before i q) := by
  intro steady _ t ran
  have fits : message.length ≤ u.incoming.capacity := by
    obtain ⟨after, filled, _⟩ := Act.within_ok.1 (show Act.within (fun s : Session => s.world.incoming)
      (fun part s => { s with world := { s.world with incoming := part } }) (Buffer.fill message) u.whole =
        .ok _ t from ran)
    exact (Buffer.fill_ok.1 filled).1
  rw [Live.whole, hold_of_fits fits] at ran
  cases ran
  refine ⟨⟨u.session, u.recorder, u.incoming.holding message⟩, rfl, rfl, rfl, ⟨steady.sound, ?_, steady.inbox⟩,
    [], by simp, ?_⟩
  · exact (Buffer.capacity_holding fits).trans_le steady.room
  · intro i later p incoming beside holds
    have room : message.length ≤ incoming.capacity := beside.capacity ▸ fits
    refine ⟨p, incoming.holding message, hold_of_fits room _ _, ⟨beside.follows, ?_, .inl ?_⟩, ?_, rfl, holds⟩
    · rw [Buffer.capacity_holding room, beside.capacity, Buffer.capacity_holding fits]
    · rw [Buffer.written_holding, Buffer.written_holding]
    · rw [Buffer.written_holding, Buffer.written_holding]

def holdFrame (frame : Demo.Frame) : Act Session Int32 := do
  hold frame.data
  change fun c => { c with view.frameAngles := (frame.angles, c.view.frameAngles.1) }
  return 1

def playFrame (read : Except Fault (Option Demo.Frame) × Reader) : Act Session Int32 := do
  change fun c => { c with demo := .playing read.2 }
  match read.1 with
  | .error fault => throw fault
  | .ok none =>
    Client.stopPlayback
    return 0
  | .ok (some frame) => holdFrame frame

def lookAtDemo (c : Client) : Act Session Int32 := do
  change fun d => { d with timing := (Client.frameDue c).2 }
  match (Client.frameDue c).1, c.demo with
  | true, .playing file => playFrame (Demo.readFrame file c.disk)
  | _, _ => return 0

theorem demoMessage_over (s : Session) (net : Driver) (incoming : Buffer) :
    Client.demoMessage (s.over net incoming) = lookAtDemo s.world (s.over net incoming) := by
  unfold Client.demoMessage lookAtDemo
  rw [ask_at]
  have due : Client.frameDue (s.over net incoming).world = Client.frameDue s.world := rfl
  have demo : (s.over net incoming).world.demo = s.world.demo := rfl
  have disk : (s.over net incoming).world.disk = s.world.disk := rfl
  rw [due, demo, disk]
  cases Client.frameDue s.world with
  | mk due timing =>
    cases due with
    | false => rfl
    | true =>
      cases s.world.demo with
      | idle => rfl
      | recording file => rfl
      | playing file =>
        exact Act.bind_congr rfl

theorem nothing_same (v : Live) (last : Buffer) : SameMessage 0 v last :=
  ⟨fun positive => absurd positive (by decide), by decide⟩

theorem nothing_tracks (u : Live) (before : Nat → Player → Buffer → Prop) :
    TracksFrom left count u before (pure 0 : Act Session Int32) (fun _ => pure 0)
      (fun kind v bound q last => SameMessage kind v last ∧
        (kind ≠ 0 → q.left + toPlay v.session.world < bound)) := by
  refine TracksFrom.of_blind (.pure 0) ?_
  intro kind m bound p incoming ran _
  cases ran
  exact ⟨nothing_same _ _, fun other => absurd rfl other⟩

theorem holdFrame_tracks (frame : Demo.Frame) (u : Live) :
    TracksFrom left count u (fun (bound : Nat) p _ => p.left + toPlay u.session.world < bound)
      (holdFrame frame) (fun _ => holdFrame frame)
      (fun kind v bound q last => SameMessage kind v last ∧
        (kind ≠ 0 → q.left + toPlay v.session.world < bound)) := by
  apply TracksFrom.bind (hold_tracks frame.data u _)
  intro _ v _
  refine TracksFrom.of_blind (.bind (.change (by intros; rfl) (by intros; rfl)) fun _ => .pure 1) ?_
  rintro kind m bound p incoming ran ⟨message, session, less⟩
  cases ran
  refine ⟨⟨fun _ => message, by decide⟩, fun _ => ?_⟩
  change p.left + toPlay v.session.world < bound
  rw [session]
  exact less

theorem playFrame_tracks {c : Client} {file : Reader} (u : Live) (disk : u.session.world.disk = c.disk) :
    TracksFrom left count u (fun (bound : Nat) p _ => p.left + file.left c.disk ≤ bound)
      (playFrame (Demo.readFrame file c.disk)) (fun _ => playFrame (Demo.readFrame file c.disk))
      (fun kind v bound q last => SameMessage kind v last ∧
        (kind ≠ 0 → q.left + toPlay v.session.world < bound)) := by
  cases read : Demo.readFrame file c.disk with
  | mk frame after =>
    cases frame with
    | error fault =>
      have blind : Blind (playFrame (.error fault, after)) :=
        .bind (.change (fun _ _ _ => rfl) (fun _ => rfl)) fun _ => .throw fault
      refine TracksFrom.of_blind blind ?_
      intro kind m bound p incoming ran _
      obtain ⟨_, _, _, rest⟩ := Act.bind_ok.1 ran
      cases rest
    | ok frame =>
      cases frame with
      | none =>
        have blind : Blind (playFrame (.ok none, after)) :=
          .bind (.change (fun _ _ _ => rfl) (fun _ => rfl)) fun _ => .bind .stopPlayback fun _ => .pure 0
        refine TracksFrom.of_blind blind ?_
        intro kind m bound p incoming ran _
        obtain ⟨_, _, _, rest⟩ := Act.bind_ok.1 ran
        obtain ⟨_, _, _, last⟩ := Act.bind_ok.1 rest
        cases last
        exact ⟨nothing_same _ _, fun other => absurd rfl other⟩
      | some frame =>
        have less := Demo.left_readFrame read
        refine TracksFrom.bind (B := fun _ v bound q _ => q.left + toPlay v.session.world < bound) ?_
          fun _ v _ => ?_
        · refine TracksFrom.of_blind (.change (by intros; rfl) (by intros; rfl)) ?_
          intro _ m bound p incoming ran holds
          cases ran
          change p.left + after.left u.session.world.disk < bound
          rw [disk]
          omega
        · exact holdFrame_tracks frame v

theorem demoMessage_tracks (u : Live) :
    TracksFrom left count u (fun (bound : Nat) p _ => p.left + toPlay u.session.world ≤ bound)
      Client.demoMessage (fun _ => Client.demoMessage)
      (fun kind v bound q last => SameMessage kind v last ∧
        (kind ≠ 0 → q.left + toPlay v.session.world < bound)) := by
  have looked : TracksFrom left count u (fun (bound : Nat) p _ => p.left + toPlay u.session.world ≤ bound)
      (lookAtDemo u.session.world) (fun _ => lookAtDemo u.session.world)
      (fun kind v bound q last => SameMessage kind v last ∧
        (kind ≠ 0 → q.left + toPlay v.session.world < bound)) := by
    refine TracksFrom.bind (B := fun _ _ bound q _ => q.left + toPlay u.session.world ≤ bound) ?_
      fun _ v ran => ?_
    · refine TracksFrom.of_blind (.change (by intros; rfl) (by intros; rfl)) ?_
      exact fun _ _ _ _ _ _ holds => holds
    · have disk : v.whole.world.disk = u.whole.world.disk := by rw [← (EStateM.Result.ok.inj ran).2]
      cases due : (Client.frameDue u.session.world).1 with
      | false => exact nothing_tracks v _
      | true =>
        cases demo : u.session.world.demo with
        | idle => exact nothing_tracks v _
        | recording file => exact nothing_tracks v _
        | playing file =>
          have rest : toPlay u.session.world = file.left u.session.world.disk := by simp only [toPlay, demo]
          rw [rest]
          exact playFrame_tracks v disk
  exact looked.recast (demoMessage_over _ _ _) fun bound p incoming holds =>
    ⟨bound, holds, demoMessage_over _ _ _, fun _ _ _ _ held => held⟩

/-- The next message, wherever it comes from. A replay is as far from its end as what is left of the recording
and of the demo. -/
theorem nextMessage_tracks (u : Live) :
    TracksFrom left count u (fun (bound : Nat) p _ => p.left + toPlay u.session.world ≤ bound)
      Client.nextMessage (fun _ => Client.nextMessage)
      (fun kind v bound q last => SameMessage kind v last ∧
        (kind ≠ 0 → q.left + toPlay v.session.world < bound)) := by
  cases playing : u.session.world.playing with
  | true =>
    have plain (net : Driver) (incoming : Buffer) : Client.nextMessage (u.session.over net incoming) =
        Client.demoMessage (u.session.over net incoming) := by
      unfold Client.nextMessage
      rw [ask_at]
      exact congrFun (if_pos playing) _
    exact (demoMessage_tracks u).recast (plain _ _) fun bound p incoming holds =>
      ⟨bound, holds, plain _ _, fun _ _ _ _ held => held⟩
  | false =>
    have rest := toPlay_of_quiet playing
    have quiet (net : Driver) (incoming : Buffer) : (u.session.over net incoming).world.playing = false := playing
    cases here : u.session.world.socket with
    | none =>
      have plain (net : Driver) (incoming : Buffer) : Client.nextMessage (u.session.over net incoming) =
          (pure 0 : Act Session Int32) (u.session.over net incoming) := by
        have socket : (u.session.over net incoming).world.socket = none := here
        unfold Client.nextMessage
        rw [ask_at, quiet, socket]
        rfl
      exact (nothing_tracks u _).recast (plain _ _) fun bound p incoming holds =>
        ⟨bound, holds, plain _ _, fun _ _ _ _ held => held⟩
    | some socket =>
      have plain (net : Driver) (incoming : Buffer) : Client.nextMessage (u.session.over net incoming) =
          Client.networkMessage socket (net.backlog + 1) (u.session.over net incoming) := by
        have socket : (u.session.over net incoming).world.socket = some socket := here
        unfold Client.nextMessage
        rw [ask_at, quiet, socket]
        rfl
      refine (networkMessage_tracks socket (u.recorder.driver.backlog + 1) u playing).recast (plain _ _)
        fun bound p incoming holds => ⟨(p.left + 1, p.left), ⟨Nat.lt_succ_self _, le_refl _⟩, plain _ _, ?_⟩
      rintro kind v q last ⟨quiet, message, less⟩
      refine ⟨message, fun _ => ?_⟩
      rw [toPlay_of_quiet quiet]
      omega

theorem obey_tracks (orders : List Order) : Tracks left count (Client.obey orders) := by
  induction orders with
  | nil => exact .of_blind (.pure _)
  | cons order rest ih =>
    cases order with
    | nothing => exact ih
    | time seconds => exact .bind (.of_blind (.change (by intros; rfl) (by intros; rfl))) fun _ => ih
    | print text => exact .bind (.of_blind (.print text)) fun _ => ih
    | run text => exact .bind (.of_blind (.onShell _)) fun _ => ih
    | signon number =>
      unfold Client.obey
      refine .ask_bind (fun _ _ _ => rfl) fun c => ?_
      split
      · exact .bind (.of_blind (.change (by intros; rfl) (by intros; rfl))) fun _ => ih
      · exact .gameError _
    | leave => exact .endGame
    | illegible => exact .gameError _
    | broken => exact .gameError _

def Ends {α : Type} (act : Act Session α) (holds : Session → Prop) : Prop :=
  ∀ s a t, act s = .ok a t → holds t

theorem Ends.bind {α β : Type} {act : Act Session α} {next : α → Act Session β} {holds : Session → Prop}
    (last : ∀ a, Ends (next a) holds) : Ends (act >>= next) holds := by
  intro s b t ran
  obtain ⟨a, m, _, rest⟩ := Act.bind_ok.1 ran
  exact last a m b t rest

theorem disconnect_connected : Ends Client.disconnect fun t => t.world.connected = false := by
  have forgets : Ends (change fun c => { c with socket := none, connected := false, signon := 0 })
      fun t => t.world.connected = false := by
    intro s _ t ran
    cases ran
    rfl
  unfold Client.disconnect
  apply Ends.bind
  intro c
  dsimp only
  split
  · exact Ends.bind fun _ => forgets
  · split
    · split
      · exact Ends.bind fun _ => Ends.bind fun _ => forgets
      · exact Ends.bind fun _ => forgets
    · exact forgets

theorem gameError_connected (message : Text) :
    Ends (Client.gameError message) fun t => t.world.connected = false :=
  Ends.bind fun _ => Ends.bind fun _ => disconnect_connected

theorem queueNextDemo_connected {s t : Session} (ran : Client.queueNextDemo s = .ok () t) :
    t.world.connected = s.world.connected := by
  unfold Client.queueNextDemo at ran
  rw [ask_at] at ran
  dsimp only at ran
  split at ran
  · split at ran
    · cases ran
      rfl
    · cases ran
      rfl
  · cases ran
    rfl

theorem endGame_connected : Ends Client.endGame fun t => t.world.connected = false := by
  intro s _ t ran
  obtain ⟨_, m, left, rest⟩ := Act.bind_ok.1 ran
  rw [queueNextDemo_connected rest]
  exact disconnect_connected s _ m left

/-- What a message says is done without touching the demo, unless it ends the connection. -/
theorem obey_connected {orders : List Order} {s t : Session} (ran : Client.obey orders s = .ok () t)
    (still : t.world.connected = true) : toPlay t.world = toPlay s.world := by
  have never {act : Act Session Unit} {s : Session} (ends : Ends act fun t => t.world.connected = false)
      (ran : act s = .ok () t) : toPlay t.world = toPlay s.world := by
    have := ends s _ t ran
    simp [still] at this
  induction orders generalizing s with
  | nil =>
    cases ran
    rfl
  | cons order rest ih =>
    cases order with
    | nothing => exact ih ran
    | time seconds => exact ih (s := { s with world := Client.heed seconds s.world }) ran
    | print text => exact ih (s := { s with shell := s.shell.print text }) ran
    | run text => exact ih (s := { s with shell := s.shell.addText text }) ran
    | signon number =>
      unfold Client.obey at ran
      rw [ask_at] at ran
      by_cases order : Client.signonInOrder number s.world.signon = true
      · rw [if_pos order] at ran
        exact ih (s := { s with world := { s.world with signon := number } }) ran
      · rw [if_neg order] at ran
        exact never (gameError_connected _) ran
    | leave => exact never endGame_connected ran
    | illegible => exact never (gameError_connected _) ran
    | broken => exact never (gameError_connected _) ran

theorem obeyMessage_tracks (u : Live) :
    TracksFrom left count u (fun (bound : Nat) p incoming => incoming.written = u.incoming.written ∧
        p.left + toPlay u.session.world < bound) Client.obeyMessage (fun _ => Client.obeyMessage)
      (fun _ v bound q _ => v.session.world.connected = true → q.left + toPlay v.session.world < bound) := by
  refine TracksFrom.of_written (f := fun message => Client.obey (Order.ofBytes message))
    (g := fun _ message => Client.obey (Order.ofBytes message)) ?_ (fun _ _ _ => rfl) (fun _ _ _ _ => rfl)
    fun _ _ _ holds => holds.1
  refine TracksFrom.of_tracks (obey_tracks _) ?_
  rintro _ v bound p q incoming last ran ⟨_, less⟩ onward still
  have same : toPlay v.whole.world = toPlay u.whole.world := obey_connected ran still
  have same : toPlay v.session.world = toPlay u.session.world := same
  omega

def answer (fuel : Nat) (kind : Int32) : Act Session Unit := do
  if kind == -1 then Client.gameError "CL_ReadFromServer: lost server connection"
  else if kind != 0 then
    Client.obeyMessage
    if (← ask).connected then Client.readWithin fuel

theorem positive_of_message {kind : Int32} (least : -1 ≤ kind) (kept : kind ≠ -1) (some : kind ≠ 0) : 0 < kind := by
  rw [Int32.lt_iff_toInt_lt]
  rw [Int32.le_iff_toInt_le] at least
  have one : kind.toInt ≠ -1 := fun same => kept (Int32.toInt.inj same)
  have zero : kind.toInt ≠ 0 := fun same => some (Int32.toInt.inj same)
  have minus : (-1 : Int32).toInt = -1 := rfl
  have nought : (0 : Int32).toInt = 0 := rfl
  omega

/-- Messages, by induction on how many a live session reads. -/
theorem readWithin_tracks (fuel : Nat) (u : Live) :
    TracksFrom left count u (fun (bound : Nat) p _ => p.left + toPlay u.session.world < bound)
      (Client.readWithin fuel) (fun bound => Client.readWithin bound) (fun _ _ _ _ _ => True) := by
  induction fuel generalizing u with
  | zero =>
    intro _ _ _ ran
    cases ran
  | succ fuel ih =>
    have answered (kind : Int32) (v : Live) : TracksFrom left count v
        (fun (bound : Nat) q last => SameMessage kind v last ∧ (kind ≠ 0 → q.left + toPlay v.session.world < bound))
        (answer fuel kind) (fun bound => answer bound kind) (fun _ _ _ _ _ => True) := by
      unfold answer
      by_cases lost : kind = -1
      · subst lost
        exact TracksFrom.of_tracks (.gameError _) fun _ _ _ _ _ _ _ _ _ _ => trivial
      by_cases none : kind = 0
      · subst none
        exact TracksFrom.of_blind (.pure _) fun _ _ _ _ _ _ _ => trivial
      have first : ¬ (kind == -1) = true := by simpa using lost
      have second : (kind != 0) = true := by simpa using none
      simp only [if_neg first, if_pos second]
      refine TracksFrom.bind (B := fun _ w bound q _ =>
        w.session.world.connected = true → q.left + toPlay w.session.world < bound) ?_ fun _ w _ => ?_
      · refine (obeyMessage_tracks v).recast rfl fun bound p incoming holds =>
          ⟨bound, ⟨holds.1.1 ?_, holds.2 none⟩, rfl, fun _ _ _ _ held => held⟩
        exact positive_of_message holds.1.2 lost none
      · by_cases still : w.session.world.connected = true
        · have plain (fuel : Nat) (net : Driver) (incoming : Buffer) :
              (ask >>= fun c => if c.connected = true then Client.readWithin fuel else pure ())
                (w.session.over net incoming) = Client.readWithin fuel (w.session.over net incoming) := by
            rw [ask_at]
            exact congrFun (if_pos still) _
          exact (ih w).recast (plain _ _ _) fun bound p incoming holds =>
            ⟨bound, holds still, plain _ _ _, fun _ _ _ _ held => held⟩
        · have plain (fuel : Nat) (net : Driver) (incoming : Buffer) :
              (ask >>= fun c => if c.connected = true then Client.readWithin fuel else pure ())
                (w.session.over net incoming) = (pure () : Act Session Unit) (w.session.over net incoming) := by
            rw [ask_at]
            exact congrFun (if_neg still) _
          refine TracksFrom.recast (TracksFrom.of_blind (.pure ()) ?_) (plain _ _ _) fun bound p incoming holds =>
            ⟨bound, holds, plain _ _ _, fun _ _ _ _ held => held⟩
          exact fun _ _ _ _ _ _ _ => trivial
    have looked : TracksFrom left count u (fun (bound : Nat) p _ => p.left + toPlay u.session.world ≤ bound)
        (Client.nextMessage >>= answer fuel) (fun bound => Client.nextMessage >>= answer bound)
        (fun _ _ _ _ _ => True) :=
      TracksFrom.bind (nextMessage_tracks u) fun kind v _ => answered kind v
    refine looked.recast rfl fun bound p incoming holds =>
      ⟨bound - 1, by omega, ?_, fun _ _ _ _ held => held⟩
    obtain ⟨less, rfl⟩ : ∃ less, bound = less + 1 := ⟨bound - 1, by omega⟩
    rfl

theorem left_toPlay_le_backlog (c : Client) (p : Player) (incoming : Buffer) :
    p.left + toPlay c ≤ Client.backlog (c.over (.player p) incoming) := by
  unfold Client.backlog
  apply Nat.add_le_add_left
  unfold toPlay Client.over
  cases c.demo with
  | idle => exact Nat.le_refl _
  | recording file => exact Nat.zero_le _
  | playing file => exact Nat.le_refl _

theorem readServer : Tracks left count Client.readServer := by
  intro u
  have plain (net : Driver) (incoming : Buffer) : Client.readServer (u.session.over net incoming) =
      Client.readWithin (Client.backlog (u.session.world.over net incoming) + 1) (u.session.over net incoming) := rfl
  refine (readWithin_tracks _ u).recast (plain _ _) fun _ p incoming _ =>
    ⟨Client.backlog (u.session.world.over (.player p) incoming) + 1, ?_, plain _ _, fun _ _ _ _ held => held⟩
  exact Nat.lt_succ_of_le (left_toPlay_le_backlog u.session.world p incoming)

def frameAtTime (seconds : Double) : Act Session Unit := do
  Host.tick
  if !(← ask).connected then Client.checkConnection
  if (← ask).connected then
    Client.sendCommands
    change fun c => { c with view.oldTime := c.view.time, view.time := c.view.time.add seconds }
    Client.readServer
  change fun c => { c with frames := c.frames + 1 }

theorem frame_over (seconds : Double) (s : Session) (net : Driver) (incoming : Buffer) :
    Client.frame seconds (s.over net incoming) = frameAtTime seconds
      (Host.over (net.frame (s.world.clock.add seconds)) incoming
        { s with world := { s.world with clock := s.world.clock.add seconds } }) := rfl

theorem frameAtTime_tracks (seconds : Double) : Tracks left count (frameAtTime seconds) := by
  have counted : Tracks left count (change fun c => { c with frames := c.frames + 1 }) :=
    .of_blind (.change (by intros; rfl) (by intros; rfl))
  have exchanged : Tracks left count (do
      if (← ask).connected then
        Client.sendCommands
        change fun c => { c with view.oldTime := c.view.time, view.time := c.view.time.add seconds }
        Client.readServer
      change fun c => { c with frames := c.frames + 1 }) := by
    refine .ask_bind (fun _ _ _ => rfl) fun c => ?_
    dsimp only
    split
    · refine .bind .sendCommands fun _ => .bind (.of_blind (.change (by intros; rfl) (by intros; rfl))) fun _ => ?_
      exact .bind readServer fun _ => counted
    · exact counted
  unfold frameAtTime
  refine .bind .tick fun _ => .ask_bind (fun _ _ _ => rfl) fun c => ?_
  dsimp only
  split
  · exact .bind .checkConnection fun _ => exchanged
  · exact exchanged

end GameHost.Lockstep
