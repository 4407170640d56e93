import GameHost.Proofs.Lockstep.Exchange

/-!
Receiving messages and doing what they say, over a recorder and over a player of its recording. The two look
for messages with different bounds on how many there can be; every message that the replay takes uses up some
of the recording or of the demo it plays, so its bound is enough.
-/
namespace GameHost

namespace Reader

theorem left_read {count : Nat} {r after : Reader} {disk : Disk} {bytes : Bytes}
    (done : r.read count disk = (some bytes, after)) : after.left disk + count = r.left disk := by
  have first : (r.intake.read count (disk.contents r.place)).1 = some bytes := congrArg Prod.fst done
  have second : after = { r with intake := (r.intake.read count (disk.contents r.place)).2 } :=
    (congrArg Prod.snd done).symm
  rw [Intake.read_bytes] at first
  split at first
  · rename_i there
    change count ≤ r.left disk at there
    rw [second]
    simp only [left, ← Intake.length_rest]
    rw [Intake.rest_read_all, List.length_drop, Intake.length_rest]
    change r.left disk - count + count = r.left disk
    omega
  · cases first

end Reader

namespace Demo

theorem left_readWord {r after : Reader} {disk : Disk} {word : UInt32}
    (done : readWord r disk = (some word, after)) : after.left disk + 4 = r.left disk := by
  cases read : r.read 4 disk with
  | mk bytes r' =>
    cases bytes with
    | none => simp [readWord, read] at done
    | some bytes =>
      simp only [readWord, read, Option.map_some, Prod.mk.injEq, Option.some.injEq] at done
      rw [← done.2]
      exact Reader.left_read read

theorem left_readAngles {r after : Reader} {disk : Disk} {angles : Angles}
    (done : readAngles r disk = (some angles, after)) : after.left disk ≤ r.left disk := by
  unfold readAngles at done
  split at done
  · cases done
  · rename_i pitch r₁ first
    split at done
    · cases done
    · rename_i yaw r₂ second
      split at done
      · cases done
      · rename_i roll r₃ third
        cases done
        have := left_readWord first
        have := left_readWord second
        have := left_readWord third
        omega

theorem left_readFrame {r after : Reader} {disk : Disk} {frame : Frame}
    (done : readFrame r disk = (.ok (some frame), after)) : after.left disk < r.left disk := by
  unfold readFrame at done
  split at done
  · cases done
  · rename_i word r₁ first
    dsimp only at done
    split at done
    · cases done
    split at done
    · cases done
    split at done
    · cases done
    · rename_i angles r₂ second
      split at done
      · cases done
      · rename_i data r₃ third
        cases done
        have := left_readWord first
        have := left_readAngles second
        have := Reader.left_read third
        omega

end Demo

namespace Lockstep
open GameHost.Client (ask ask_at change)
open GameHost.Message (Buffer Order)
open GameHost.Network (Driver Socket)
open GameHost.Replay

variable {left : Bytes → Prop} {count : Nat}

/-- A message with a positive kind is the same in a replay; others are at least signs of a connection. -/
def SameMessage (kind : Int32) (v : Live) (incoming : Buffer) : Prop :=
  (0 < kind → incoming.written = v.incoming.written) ∧ -1 ≤ kind

theorem receiving_tracks (socket : Socket) (u : Live) :
    TracksFrom left count u (fun (bound : Nat) p _ => p.left ≤ bound) (receiving socket) (fun _ => receiving socket)
      (fun kind v bound q last => SameMessage kind v last ∧ q.left < bound) := by
  intro steady kind t ran
  obtain ⟨d, after, received, rfl⟩ := receive_ok _ _ ran
  obtain ⟨y, rfl, noted, how, network⟩ := Recorder.receive_recorded received
  have whole : after.written.length ≤ u.incoming.capacity := by
    rw [← how.capacity, Buffer.length_written]
    exact Nat.le_add_right _ _
  have inbox : ∀ delivery ∈ y.network.inbox, delivery ∈ u.recorder.network.inbox := by
    rw [network]
    exact fun delivery member => List.mem_of_mem_eraseP member
  refine ⟨⟨u.session, y, after⟩, rfl, rfl, noted.clock, ⟨?_, ?_, ?_⟩, _, noted.data, ?_⟩
  · exact steady.sound.of_network (by rw [network]; rfl) (fun s member => by rw [network] at member; exact member)
  · exact how.capacity.trans_le steady.room
  · exact fun delivery member => steady.inbox delivery (inbox delivery member)
  · intro bound later p incoming beside holds
    have fits : after.written.length ≤ incoming.capacity := beside.capacity ▸ whole
    obtain ⟨q, again, follows, less⟩ := beside.follows.receive (b := incoming) (whole.trans steady.room) fits noted
    refine ⟨q, _, receive_of_ok _ _ again, ⟨follows, ?_, ?_⟩, ⟨?_, ?_⟩, by omega⟩
    · split
      · rw [Buffer.capacity_holding fits, beside.capacity, how.capacity]
      · rw [beside.capacity, how.capacity]
    · split
      · exact .inl (Buffer.written_holding _ _)
      · cases how with
        | none => exact beside.content
        | some waiting fits =>
          rename_i never
          exact .inr (by rw [Buffer.written_holding]; exact (steady.inbox _ waiting).2 never)
    · intro positive
      rw [if_pos positive, Buffer.written_holding]
    · cases how with
      | none => decide
      | some waiting fits => exact (steady.inbox _ waiting).1

theorem receiving_playing {socket : Socket} {kind : Int32} {u v : Live}
    (ran : receiving socket u.whole = .ok kind v.whole) (quiet : u.session.world.playing = false) :
    v.session.world.playing = false := by
  obtain ⟨d, last, _, same⟩ := receive_ok _ _ ran
  have demo : v.whole.world.playing = (u.session.over d last).world.playing := by rw [same]
  exact demo.trans quiet

/-- Where the replay holds the same message, what depends on the message alone is the same. -/
theorem TracksFrom.of_written {ι α : Type} {u : Live} {before : ι → Player → Buffer → Prop}
    {act : Act Session α} {again : ι → Act Session α} {f : Bytes → Act Session α}
    {g : ι → Bytes → Act Session α} {behind : α → Live → ι → Player → Buffer → Prop}
    (tracks : TracksFrom left count u before (f u.incoming.written) (fun i => g i u.incoming.written) behind)
    (plain : ∀ s net incoming, act (Host.over net incoming s) = f incoming.written (Host.over net incoming s))
    (plain' : ∀ i s net incoming,
      again i (Host.over net incoming s) = g i incoming.written (Host.over net incoming s))
    (known : ∀ i p incoming, before i p incoming → incoming.written = u.incoming.written) :
    TracksFrom left count u before act again behind := by
  refine tracks.recast (plain _ _ _) fun i p incoming holds => ⟨i, holds, ?_, fun _ _ _ _ held => held⟩
  rw [plain', known i p incoming holds]

def recordBytes (message : Bytes) : Act Session Unit := do
  let c ← ask
  match c.demo with
  | .recording file =>
    match ← Client.onDemoFile file (Writer.writeAll (Demo.Frame.pieces ⟨c.view.angles, message⟩)) with
    | none => pure ()
    | some fault => Client.recordingFailed fault
  | _ => pure ()

theorem recordMessage_over (s : Session) (net : Driver) (incoming : Buffer) :
    Client.recordMessage (s.over net incoming) = recordBytes incoming.written (s.over net incoming) := by
  unfold Client.recordMessage recordBytes
  rw [ask_at, ask_at]
  cases (s.over net incoming).world.demo with
  | idle => rfl
  | recording file => rfl
  | playing file => rfl

theorem Blind.recordBytes (message : Bytes) : Blind (recordBytes message) := by
  unfold Lockstep.recordBytes
  refine ask_bind (fun _ _ _ => rfl) fun c => ?_
  split
  · apply bind (onDemoFile _ _)
    intro failure
    split
    · exact pure _
    · exact recordingFailed _
  · exact pure _

theorem onDemoFile_playing {file : Writer} {act : FileAct Unit} {failure : Option StorageFault} {s t : Session}
    (ran : Client.onDemoFile file act s = .ok failure t) : t.world.playing = false := by
  unfold Client.onDemoFile at ran
  rw [ask_at] at ran
  cases wrote : act (file, s.world.disk) with
  | ok _ after =>
    simp only [wrote] at ran
    cases ran
    rfl
  | error fault after =>
    simp only [wrote] at ran
    cases ran
    rfl

theorem recordBytes_playing {message : Bytes} {s t : Session} (ran : recordBytes message s = .ok () t)
    (quiet : s.world.playing = false) : t.world.playing = false := by
  unfold recordBytes at ran
  rw [ask_at] at ran
  cases demo : s.world.demo with
  | recording file =>
    simp only [demo] at ran
    obtain ⟨failure, m, wrote, rest⟩ := Act.bind_ok.1 ran
    cases failure with
    | none =>
      cases rest
      exact onDemoFile_playing wrote
    | some fault =>
      cases rest
      rfl
  | idle =>
    simp only [demo] at ran
    cases ran
    exact quiet
  | playing file => simp [Client.playing, demo, Demo.Activity.isPlaying] at quiet

def hearKnown (socket : Socket) (fuel : Nat) (kind : Int32) (message : Bytes) : Act Session Int32 :=
  if message == Client.keepalive then do
    Client.print "<-- server to client keepalive\n"
    Client.networkMessage socket fuel
  else do
    recordBytes message
    return kind

def hear (socket : Socket) (fuel : Nat) (kind : Int32) : Act Session Int32 :=
  if kind != Network.reliable && kind != Network.unreliable then return kind
  else do
    if (← ask).incoming.written == Client.keepalive then
      Client.print "<-- server to client keepalive\n"
      Client.networkMessage socket fuel
    else
      Client.recordMessage
      return kind

theorem hear_over {socket : Socket} {fuel : Nat} {kind : Int32}
    (counted : ¬ (kind != Network.reliable && kind != Network.unreliable) = true) (s : Session) (net : Driver)
    (incoming : Buffer) :
    hear socket fuel kind (s.over net incoming) = hearKnown socket fuel kind incoming.written (s.over net incoming) := by
  unfold hear hearKnown
  rw [if_neg counted, ask_at]
  by_cases sign : incoming.written = Client.keepalive
  · have here : (s.over net incoming).world.incoming.written = Client.keepalive := sign
    rw [if_pos (by simpa using here), if_pos (by simpa using sign)]
  · have here : (s.over net incoming).world.incoming.written ≠ Client.keepalive := sign
    rw [if_neg (by simpa using here), if_neg (by simpa using sign)]
    exact Act.bind_congr (recordMessage_over s net incoming)

theorem networkMessage_over (socket : Socket) (fuel : Nat) (s : Session) (net : Driver) (incoming : Buffer) :
    Client.networkMessage socket (fuel + 1) (s.over net incoming) =
      (receiving socket >>= hear socket fuel) (s.over net incoming) := rfl

theorem positive_of_counted {kind : Int32}
    (counted : ¬ (kind != Network.reliable && kind != Network.unreliable) = true) : 0 < kind := by
  have cases : kind = Network.reliable ∨ kind = Network.unreliable := by
    by_cases first : kind = Network.reliable
    · exact .inl first
    · exact .inr (by simpa [first] using counted)
  rcases cases with rfl | rfl <;> decide

/-- Messages from the network, by induction on how many a live session looks at. A replay may look at as many
as it could still receive; the second number bounds what is left of the recording afterwards. -/
theorem networkMessage_tracks (socket : Socket) (fuel : Nat) (u : Live) (quiet : u.session.world.playing = false) :
    TracksFrom left count u (fun (i : Nat × Nat) p _ => p.left < i.1 ∧ p.left ≤ i.2)
      (Client.networkMessage socket fuel) (fun i => Client.networkMessage socket i.1)
      (fun kind v i q last => v.session.world.playing = false ∧ SameMessage kind v last ∧ q.left < i.2) := by
  induction fuel generalizing u with
  | zero =>
    intro _ _ _ ran
    cases ran
  | succ fuel ih =>
    have heard (kind : Int32) (v : Live) (quiet : v.session.world.playing = false) : TracksFrom left count v
        (fun (i : Nat × Nat) q last => SameMessage kind v last ∧ q.left < i.1 ∧ q.left < i.2)
        (hear socket fuel kind) (fun i => hear socket i.1 kind)
        (fun kind w i q last => w.session.world.playing = false ∧ SameMessage kind w last ∧ q.left < i.2) := by
      by_cases counted : (kind != Network.reliable && kind != Network.unreliable) = true
      · have returned : hear socket fuel kind = pure kind := if_pos counted
        rw [returned]
        refine (TracksFrom.of_blind (.pure kind) ?_).recast rfl fun i p incoming holds =>
          ⟨i, holds, congrFun (if_pos counted) _, fun _ _ _ _ held => held⟩
        rintro _ m i p incoming ran ⟨message, _, least⟩
        cases ran
        exact ⟨quiet, message, least⟩
      · refine TracksFrom.of_written (f := hearKnown socket fuel kind)
          (g := fun i => hearKnown socket i.1 kind) ?_ (hear_over counted) (fun _ => hear_over counted)
          (fun _ _ _ holds => holds.1.1 (positive_of_counted counted))
        unfold hearKnown
        split
        · refine TracksFrom.bind (B := fun _ _ i q _ => q.left < i.1 ∧ q.left ≤ i.2)
            (TracksFrom.of_blind (.print _) ?_) fun _ w ran => ?_
          · rintro _ m i p incoming _ ⟨_, less, least⟩
            exact ⟨less, Nat.le_of_lt least⟩
          · have printed := (EStateM.Result.ok.inj ran).2
            have same : v.whole.world.playing = w.whole.world.playing := by rw [← printed]
            exact ih w (same.symm.trans quiet)
        · refine TracksFrom.bind (B := fun _ w i q last => w.session.world.playing = false ∧
            SameMessage kind w last ∧ q.left < i.2) (TracksFrom.of_blind (.recordBytes _) ?_) fun _ w _ => ?_
          · rintro _ m i p incoming ran ⟨message, _, least⟩
            exact ⟨recordBytes_playing ran quiet, message, least⟩
          · refine TracksFrom.of_blind (.pure kind) ?_
            rintro _ m i p incoming ran held
            cases ran
            exact held
    have looked : TracksFrom left count u (fun (i : Nat × Nat) p _ => p.left ≤ i.1 ∧ p.left ≤ i.2)
        (receiving socket >>= hear socket fuel) (fun i => receiving socket >>= hear socket i.1)
        (fun kind v i q last => v.session.world.playing = false ∧ SameMessage kind v last ∧ q.left < i.2) := by
      refine TracksFrom.bind (B := fun kind v i q last => SameMessage kind v last ∧ q.left < i.1 ∧ q.left < i.2)
        ?_ fun kind v ran => heard kind v (receiving_playing ran quiet)
      refine (receiving_tracks socket u).recast rfl fun i p incoming holds => ?_
      refine ⟨p.left, le_refl _, rfl, ?_⟩
      rintro kind v q last ⟨message, less⟩
      exact ⟨message, by have := holds.1; omega, by have := holds.2; omega⟩
    apply looked.recast (networkMessage_over _ _ _ _ _)
    intro i p incoming holds
    obtain ⟨bound, least⟩ := holds
    refine ⟨(i.1 - 1, i.2), ⟨by change p.left ≤ i.1 - 1; omega, least⟩, ?_, fun _ _ _ _ held => held⟩
    rw [show i.1 = i.1 - 1 + 1 by omega]
    exact networkMessage_over _ _ _ _ _

end Lockstep

end GameHost
