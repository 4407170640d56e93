import GameHost.Proofs.Client.Move

/-!
Runs of the client as chains of strides. A stride is a whole look for a message, from the network or from a demo, or one
thing that is done otherwise; of the latter it is told what becomes of the demo that is played or recorded.
-/
namespace GameHost.Client
open GameHost.Message (Order)
open GameHost.Network (Socket Driver)

theorem Taped.elsewhere {s t : Session} (taped : Taped s t) :
    core t = { core s with disk := t.world.disk, tapeFile := t.world.tapeFile } := by
  have disk : (core t).disk = t.world.disk := rfl
  have file : (core t).tapeFile = t.world.tapeFile := rfl
  rw [← disk, ← file]
  cases taped with
  | nothing same => rw [same]
  | wrote _ _ _ now => rw [now]

theorem exchange_taped {s t : Session} {net : Driver} {request : Act Driver α} {a : α}
    (ran : exchange net request s = .ok a t) : Taped s t := by
  obtain ⟨_, m, asked, ran⟩ := Act.bind_ok.1 ran
  obtain ⟨_, n, saved, ran⟩ := Act.bind_ok.1 ran
  cases ran
  obtain ⟨_, _, rfl⟩ := Act.within_ok.1 asked
  exact (saveTape_spec saved).of_core rfl

theorem receive_taped {s t : Session} {net : Driver} {socket : Socket} {kind : Int32}
    (ran : receive net socket s = .ok kind t) : Taped s t := by
  obtain ⟨_, m, asked, ran⟩ := Act.bind_ok.1 ran
  obtain ⟨_, n, saved, ran⟩ := Act.bind_ok.1 ran
  cases ran
  obtain ⟨_, _, rfl⟩ := Act.within_ok.1 asked
  exact (saveTape_spec saved).of_core rfl

/-- The part of receiving that comes before anything is written of it. -/
theorem Plain.taken (net : Driver) (socket : Socket) : Plain (Client.within (fun c => (c.supplied net, c.incoming))
    (fun (net, incoming) c => { c with net := some net, incoming }) fun (net, incoming) => net.receive socket incoming) := by
  intro s
  have same := Driver.capacity_receive socket (s.world.supplied net) s.world.incoming
  change still (Act.final (Act.within _ _ _ s)) = still s
  unfold Act.within
  dsimp only
  cases got : (s.world.supplied net).receive socket s.world.incoming with
  | ok kind pair =>
    rw [got] at same
    exact congrArg (fun capacity => (core s, capacity, s.world.view.frameAngles)) same
  | error fault pair =>
    rw [got] at same
    exact congrArg (fun capacity => (core s, capacity, s.world.view.frameAngles)) same

namespace Walks

variable {s : Session}

theorem receive (net : Driver) (socket : Socket) : Walks s (receive net socket) :=
  after (.taken net socket) fun _ _ _ => bind saveTape fun _ _ _ => of_plain (.pure _)

/-- A message of the network comes over a connection, which stays while more are looked at. -/
theorem networkMessage (socket : Socket) (fuel : Nat) (linked : s.world.socket.isSome = true) :
    Walks s (networkMessage socket fuel) := by
  induction fuel generalizing s with
  | zero => exact of_plain (.throw _)
  | succ fuel ih =>
    unfold Client.networkMessage
    apply ask_bind
    split
    · exact of_plain (.pure _)
    · apply bind (receive _ _)
      intro kind m ran
      have still : m.world.socket.isSome = true := by
        have same : (core m).socket = (core s).socket := by rw [(receive_taped ran).elsewhere]
        exact (congrArg Option.isSome same).trans linked
      split
      · exact of_plain (.pure _)
      · apply ask_bind
        split
        · refine after (.print _) fun _ t same => ih ?_
          exact (congrArg (fun c : Core => c.socket.isSome) same).trans still
        · exact bind (recordMessage still) fun _ _ _ => of_plain (.pure _)

theorem nextMessage : Walks s nextMessage := by
  unfold Client.nextMessage
  apply ask_bind
  split
  · exact demoMessage
  · split
    · rename_i socket
      exact networkMessage _ _ (by rw [socket]; rfl)
    · exact of_plain (.pure _)

end Walks

/-- What a stride is apart from what it changes. -/
inductive Note where
  | other
  /-- A demo is begun to be recorded. -/
  | begun
  /-- A demo is begun to be played. -/
  | played
  /-- A message is looked for; with what the look returned. -/
  | asked (kind : Int32)
  deriving DecidableEq

inductive Stride : Note → Session → Session → Prop where
  /-- What is done with demos stays as it is. -/
  | aside {s t : Session} (deed : Deed s t) (demo : t.world.demo = s.world.demo)
      (pictures : t.world.playing = true → t.world.view.frameAngles = s.world.view.frameAngles) : Stride .other s t
  /-- Nothing is done with demos any more. -/
  | ended {s t : Session} (deed : Deed s t) (idle : t.world.demo = .idle) : Stride .other s t
  | begun {s t : Session} {path : Path} {track : Int32} (silent : s.world.recording = false)
      (ran : beginRecording path track s = .ok () t) (recording : t.world.recording = true) : Stride .begun s t
  | played {s t : Session} {name : Text} (ran : playDemo name s = .ok true t) : Stride .played s t
  | asked {s t : Session} {kind : Int32} (ran : nextMessage s = .ok kind t) : Stride (.asked kind) s t

/-- Strides from one session to another, each with the session that it leads to. -/
inductive Strides : Session → List (Note × Session) → Session → Prop where
  | here {s : Session} : Strides s [] s
  | step {note : Note} {s m t : Session} {later : List (Note × Session)} (stride : Stride note s m)
      (onward : Strides m later t) : Strides s ((note, m) :: later) t

/-- What a look for a message returned, and the session then. -/
abbrev Look := Int32 × Session

def Note.look? (note : Note) (now : Session) : Option Look :=
  match note with
  | .asked kind => some (kind, now)
  | _ => none

/-- The looks among strides. -/
def looks (steps : List (Note × Session)) : List Look := steps.filterMap fun step => step.1.look? step.2

theorem looks_append (steps more : List (Note × Session)) : looks (steps ++ more) = looks steps ++ looks more := by
  simp [looks]

/-- What is looked for after an action, which may fail. -/
def onward {α : Type} (more : α → Session → List Look) : EStateM.Result Fault Session α → List Look
  | .ok a t => more a t
  | .error _ _ => []

/-- Where the run of an action leads by strides, these looks being among them; if it fails, up to what fails. -/
inductive Told (s : Session) (seen : List Look) {α : Type} : EStateM.Result Fault Session α → Prop where
  | ok {a : α} {steps : List (Note × Session)} {t : Session} (strides : Strides s steps t) (same : looks steps = seen) :
      Told s seen (.ok a t)
  | error {fault : Fault} {steps : List (Note × Session)} {m t : Session} (strides : Strides s steps m)
      (same : looks steps = seen) (fails : Fails m t ∨ nextMessage m = .error fault t) : Told s seen (.error fault t)

theorem Stride.deeds {note : Note} {s t : Session} (stride : Stride note s t) (ready : Ready s) : Deeds s t := by
  cases stride with
  | aside deed _ _ => exact .single deed
  | ended deed _ => exact .single deed
  | begun silent ran _ => exact .single (.of_aside (.beginRecording silent ran) ((Beside.beginRecording _ _).of_ok ran))
  | played ran => exact .single (.of_aside (.playDemo ran) ((Beside.playDemo _).of_ok ran))
  | asked ran =>
    have conduct := Walks.nextMessage ready
    rw [ran] at conduct
    cases conduct with
    | ok deeds => exact deeds

namespace Strides

variable {steps more : List (Note × Session)} {s m t : Session}

theorem single {note : Note} (stride : Stride note s t) : Strides s [(note, t)] t := .step stride .here

theorem trans (first : Strides s steps m) (second : Strides m more t) : Strides s (steps ++ more) t := by
  induction first with
  | here => exact second
  | step stride _ ih => exact .step stride (ih second)

theorem deeds (strides : Strides s steps t) (ready : Ready s) : Deeds s t := by
  induction strides with
  | here => exact .here
  | step stride _ ih =>
    have first := stride.deeds ready
    exact first.trans (ih (first.moves.ready ready))

end Strides

/-- The run of the action goes by strides, none of which is a look for a message. -/
def Paces (s : Session) {α : Type} (act : Act Session α) : Prop := Ready s → Told s [] (act s)

namespace Told

variable {s m : Session} {α β : Type} {seen : List Look}

theorem conduct {outcome : EStateM.Result Fault Session α} (told : Told s seen outcome) (ready : Ready s) :
    Conduct s outcome := by
  cases told with
  | ok strides _ => exact .ok (strides.deeds ready)
  | error strides _ fails =>
    have deeds := strides.deeds ready
    rcases fails with fails | stopped
    · exact .error deeds fails
    · have conduct := Walks.nextMessage (deeds.moves.ready ready)
      rw [stopped] at conduct
      cases conduct with
      | error more fails => exact .error (deeds.trans more) fails

theorem after {steps : List (Note × Session)} {outcome : EStateM.Result Fault Session α} (strides : Strides s steps m)
    (told : Told m seen outcome) : Told s (looks steps ++ seen) outcome := by
  cases told with
  | ok onward same => exact .ok (strides.trans onward) (by rw [looks_append, same])
  | error onward same fails => exact .error (strides.trans onward) (by rw [looks_append, same]) fails

theorem look {kind : Int32} {outcome : EStateM.Result Fault Session α} (ran : nextMessage s = .ok kind m)
    (told : Told m seen outcome) : Told s ((kind, m) :: seen) outcome :=
  after (.single (.asked ran)) told

/-- A stride that is no look. -/
theorem single {a : α} {note : Note} {t : Session} (stride : Stride note s t) (silent : note.look? t = none) :
    Told s [] (.ok a t) :=
  .ok (.single stride) (by simp [looks, silent])

theorem ready {a : α} {t : Session} (told : Told s seen (.ok a t)) (ready : Ready s) : Ready t := by
  cases told with
  | ok strides _ => exact (strides.deeds ready).moves.ready ready

theorem bind {act : Act Session α} {next : α → Act Session β} {more : α → Session → List Look} (first : Told s seen (act s))
    (second : ∀ a t, act s = .ok a t → Told t (more a t) (next a t)) :
    Told s (seen ++ onward more (act s)) ((act >>= next) s) := by
  cases ran : act s with
  | error fault m =>
    rw [onward, List.append_nil, Act.bind_of_error ran]
    rw [ran] at first
    cases first with
    | error strides same fails => exact .error strides same fails
  | ok a m =>
    rw [onward, Act.bind_of_ok ran]
    rw [ran] at first
    cases first with
    | ok strides same => exact same ▸ after strides (second a m ran)

/-- What comes after an action, without a look. -/
theorem bind_paces {act : Act Session α} {next : α → Act Session β} (first : Told s seen (act s)) (ready : Ready s)
    (second : ∀ a t, act s = .ok a t → Paces t (next a)) : Told s seen ((act >>= next) s) := by
  have silent : ∀ a t, act s = .ok a t → Told t [] (next a t) := fun a t ran => second a t ran ((ran ▸ first).ready ready)
  have told := first.bind silent
  have none : onward (fun _ _ => []) (act s) = [] := by cases act s <;> rfl
  rwa [none, List.append_nil] at told

end Told

/-- What can become of a demo that is not asked for a message: it ends, or stays as it is. -/
def Spared (s t : Session) : Prop :=
  t.world.demo = .idle ∨ t.world.demo = s.world.demo ∧
    (t.world.playing = true → t.world.view.frameAngles = s.world.view.frameAngles)

theorem Spared.stride {s t : Session} (spared : Spared s t) (deed : Deed s t) : Stride .other s t := by
  rcases spared with idle | ⟨demo, pictures⟩
  · exact .ended deed idle
  · exact .aside deed demo pictures

theorem Spared.of_confined {act : Act Session α} (confined : Confined act) {s t : Session} {a : α} (ran : act s = .ok a t)
    (demo : t.world.demo = .idle ∨ t.world.demo = s.world.demo) : Spared s t :=
  have angles : (beyond t).world.view.frameAngles = (beyond s).world.view.frameAngles :=
    congrArg (fun s : Session => s.world.view.frameAngles) (confined.of_ok ran)
  demo.imp id fun same => ⟨same, fun _ => angles⟩

theorem Spared.of_quiet {s t : Session} (quiet : s.world.playing = false) (demo : t.world.demo = s.world.demo) :
    Spared s t := by
  refine .inr ⟨demo, fun playing => ?_⟩
  rw [Client.playing, demo] at playing
  exact absurd (quiet.symm.trans playing) Bool.false_ne_true

theorem Stopped.demo_or {s t : Session} (stopped : Stopped s t) : t.world.demo = .idle ∨ t.world.demo = s.world.demo := by
  cases stopped with
  | nothing _ same => exact .inr (congrArg Core.demo same)
  | finished _ _ now => exact .inl (congrArg Core.demo now)
  | failed _ _ now _ => exact .inl (congrArg Core.demo now)

theorem Dropped.demo_or {s t : Session} (dropped : Dropped s t) :
    t.world.demo = .idle ∨ s.world.playing = false ∧ t.world.demo = s.world.demo := by
  cases dropped with
  | played _ now => exact .inl (congrArg Core.demo now)
  | left quiet _ now => exact .inr ⟨quiet, congrArg Core.demo now⟩
  | recorded _ recording stopped now _ =>
    have demo := congrArg Core.demo now
    cases stopped with
    | nothing quiet _ => exact nomatch quiet.symm.trans recording
    | finished _ _ stopped => exact .inl (demo.trans (congrArg Core.demo stopped))
    | failed _ _ stopped _ => exact .inl (demo.trans (congrArg Core.demo stopped))

theorem Dropped.spared {s m t : Session} (dropped : Dropped s m) (same : t.world.demo = m.world.demo) : Spared s t := by
  rcases dropped.demo_or with idle | ⟨quiet, demo⟩
  · exact .inl (same.trans idle)
  · exact .of_quiet quiet (same.trans demo)

namespace Paces

variable {s : Session} {α β : Type}

theorem walks {act : Act Session α} (paces : Paces s act) : Walks s act := fun ready => (paces ready).conduct ready

theorem of_plain {act : Act Session α} (plain : Plain act) : Paces s act := by
  intro _
  cases ran : act s with
  | error fault t => exact .error .here rfl (.inl (.around (core_of_still (plain.of_error ran))))
  | ok a t =>
    have same := plain.of_ok ran
    have demo : t.world.demo = s.world.demo := congrArg Core.demo (core_of_still same)
    exact .single (.aside (.of_still same) demo fun _ => congrArg (fun part => part.2.2) same) rfl

theorem of_move {act : Act Session α} {t : Session} {a : α} (ran : act s = .ok a t) (beside : Beside act) (move : Move s t)
    (spared : Spared s t) : Paces s act := by
  intro _
  rw [ran]
  exact .single (spared.stride (.of_aside move (beside.of_ok ran))) rfl

theorem bind {act : Act Session α} {next : α → Act Session β} (first : Paces s act)
    (second : ∀ a t, act s = .ok a t → Paces t (next a)) : Paces s (act >>= next) :=
  fun ready => (first ready).bind_paces ready second

theorem after {act : Act Session α} {next : α → Act Session β} (plain : Plain act)
    (second : ∀ a t, core t = core s → Paces t (next a)) : Paces s (act >>= next) :=
  bind (of_plain plain) fun a t ran => second a t (core_of_still (plain.of_ok ran))

theorem ask_bind {next : Client → Act Session β} (there : Paces s (next s.world)) : Paces s (ask >>= next) := there

theorem get_bind {next : Session → Act Session β} (there : Paces s (next s)) : Paces s (get >>= next) := there

theorem line_bind {next : Line → Act Session β} (there : Paces s (next s.shell.line)) : Paces s (line >>= next) :=
  there

theorem disconnect : Paces s disconnect := by
  obtain ⟨t, ran, dropped⟩ := disconnect_spec s
  exact of_move ran .disconnect (.disconnect ran) (dropped.spared rfl)

theorem stopPlayback : Paces s stopPlayback := by
  obtain ⟨t, ran, now⟩ := stopPlayback_spec s
  refine of_move ran .stopPlayback (.stopPlayback ran) (.of_confined .stopPlayback ran ?_)
  split at now
  · exact .inl (congrArg Core.demo now)
  · exact .inr (congrArg Core.demo now)

theorem stopRecording : Paces s stopRecording := by
  obtain ⟨t, ran, stopped⟩ := stopRecording_spec s
  exact of_move ran .stopRecording (.stopRecording ran) (.of_confined .stopRecording ran stopped.demo_or)

theorem writeConfig : Paces s writeConfig := by
  obtain ⟨t, ran, _, now⟩ := writeConfig_spec s
  exact of_move ran .writeConfig (.writeConfig ran) (.of_confined .writeConfig ran (.inr (congrArg Core.demo now)))

theorem beginRecording (path : Path) (track : Int32) (quiet : s.world.recording = false) :
    Paces s (beginRecording path track) := by
  obtain ⟨t, ran, begun⟩ := beginRecording_spec path track s
  cases begun with
  | opened _ now =>
    intro _
    rw [ran]
    exact .single (.begun quiet ran (congrArg (fun c : Core => c.demo.isRecording) now)) rfl
  | refused _ now =>
    exact of_move ran (.beginRecording path track) (.beginRecording quiet ran)
      (.of_confined (.beginRecording path track) ran (.inr (congrArg Core.demo now)))

theorem playDemo (name : Text) : Paces s (playDemo name) := by
  obtain ⟨opened, t, ran, played⟩ := playDemo_spec name s
  cases played with
  | opened _ _ _ =>
    intro _
    rw [ran]
    exact .single (.played ran) rfl
  | missing dropped now _ =>
    exact of_move ran (.playDemo name) (.playDemo ran) (dropped.spared (congrArg Core.demo now))

theorem saveTape : Paces s saveTape := by
  intro _
  cases ran : Client.saveTape s with
  | error fault t => exact .error .here rfl (.inl (.saveTape ran))
  | ok _ t =>
    have demo : t.world.demo = s.world.demo := congrArg Core.demo (saveTape_spec ran).elsewhere
    exact .single ((Spared.of_confined .saveTape ran (.inr demo)).stride (.of_aside (.saveTape ran) (Beside.saveTape.of_ok ran))) rfl

theorem finishTape : Paces s finishTape := by
  intro _
  cases ran : Client.finishTape s with
  | error fault t => exact .error .here rfl (.inl (.finishTape ran))
  | ok _ t =>
    have demo : t.world.demo = s.world.demo := congrArg Core.demo (finishTape_spec ran).elsewhere
    exact .single ((Spared.of_confined .finishTape ran (.inr demo)).stride (.of_aside (.finishTape ran) (Beside.finishTape.of_ok ran))) rfl

end Paces

end GameHost.Client
