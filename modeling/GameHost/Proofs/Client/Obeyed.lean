import GameHost.Client.Obey
import GameHost.Proofs.Client.Core
import GameHost.Proofs.Client.Forwarding
import GameHost.Proofs.Message.Grammar

/-!
What a message of the server does to a client that is connected. A message that spells directives, with stages of
signing on that go up, is carried out directive by directive; any other ends the game, and what the directives
before the one at fault have done stays done.
-/
namespace GameHost.Client
open GameHost.Message (Directive Order Astray)

/-- The text is shown, or queued, and so on: what one directive does. -/
def carry (s : Session) : Directive → Session
  | .nothing => s
  | .time seconds => { s with world := heed seconds s.world }
  | .print body => { s with shell := s.shell.print (Text.decode body) }
  | .run body => { s with shell := s.shell.addText (Text.decode body) }
  | .signon number => { s with world.signon := number.toNat }

/-- What the directives do one after another. -/
def carryAll (s : Session) (directives : List Directive) : Session := directives.foldl carry s

/-- The stages of signing on go up from the one reached, and none is past the last. -/
def Rising (signon : Int) : List Directive → Prop
  | [] => True
  | .signon number :: rest => signonInOrder number.toNat signon = true ∧ Rising number.toNat rest
  | _ :: rest => Rising signon rest

/-- The bytes spell the directives, each well-formed, with stages of signing on that go up. -/
structure Spelled (signon : Int) (directives : List Directive) (bytes : Bytes) : Prop where
  whole : bytes = Directive.spell directives
  good : ∀ directive ∈ directives, directive.WellFormed
  rising : Rising signon directives

theorem obey_carried {directives : List Directive} {s : Session} (rising : Rising s.world.signon directives)
    (rest : List Order) :
    obey (directives.map Directive.order ++ rest) s = obey rest (carryAll s directives) := by
  induction directives generalizing s with
  | nil => rfl
  | cons directive directives ih =>
    cases directive with
    | nothing => exact ih rising
    | time seconds => exact ih (s := carry s (.time seconds)) rising
    | print body => exact ih (s := carry s (.print body)) rising
    | run body => exact ih (s := carry s (.run body)) rising
    | signon number =>
      obtain ⟨inOrder, rising⟩ := rising
      rw [List.map_cons, List.cons_append, Directive.order, obey, ask_at, if_pos inOrder]
      exact ih (s := carry s (.signon number)) rising

/-- What comes of a session that loses its connection: text is shown, and nothing else of the shell and of what the
server has said about the game changes. -/
structure Further (s t : Session) : Prop where
  view : t.world.view = s.world.view
  demos : t.world.demos = s.world.demos
  shell : ∃ texts : List Text, t.shell = { s.shell with
    console := texts.foldl (fun console text => console.print text) s.shell.console }

namespace Further

theorem refl (s : Session) : Further s s := ⟨rfl, rfl, [], rfl⟩

theorem trans {s m t : Session} (first : Further s m) (second : Further m t) : Further s t := by
  obtain ⟨texts, shell⟩ := first.shell
  obtain ⟨more, later⟩ := second.shell
  refine ⟨second.view.trans first.view, second.demos.trans first.demos, texts ++ more, ?_⟩
  rw [later, shell, List.foldl_append]

end Further

/-- An action that goes no further, however it ends. -/
def Trails {α : Type} (act : Act Session α) : Prop := ∀ s, Further s (Act.final (act s))

namespace Trails

variable {α β : Type}

theorem pure (a : α) : Trails (Pure.pure a) := fun s => .refl s

theorem bind {act : Act Session α} {next : α → Act Session β} (first : Trails act) (second : ∀ a, Trails (next a)) :
    Trails (act >>= next) := by
  intro s
  have begun := first s
  cases ran : act s with
  | ok a m =>
    rw [ran] at begun
    rw [Act.bind_of_ok ran]
    exact begun.trans (second a m)
  | error fault m =>
    rw [ran] at begun
    rw [Act.bind_of_error ran]
    exact begun

theorem ask_bind {next : Client → Act Session β} (each : ∀ c, Trails (next c)) : Trails (ask >>= next) :=
  fun s => each s.world s

theorem change {f : Client → Client} (view : ∀ c : Client, (f c).view = c.view)
    (demos : ∀ c : Client, (f c).demos = c.demos) : Trails (change f) :=
  fun s => ⟨view s.world, demos s.world, [], rfl⟩

theorem print (text : Text) : Trails (print text) := fun _ => ⟨rfl, rfl, [text], rfl⟩

theorem stopPlayback : Trails stopPlayback := by
  have timed : Trails finishTiming :=
    .ask_bind fun _ => .bind (.change (fun _ => rfl) fun _ => rfl) fun _ => print _
  unfold Client.stopPlayback
  refine .ask_bind fun c => ?_
  split
  · refine .bind (.change (fun _ => rfl) fun _ => rfl) fun _ => ?_
    split
    · exact timed
    · exact .pure _
  · exact .pure _

theorem onDemoFile (file : Writer) (act : FileAct Unit) : Trails (onDemoFile file act) := by
  unfold Client.onDemoFile
  refine .ask_bind fun c => ?_
  split
  · exact .bind (.change (fun _ => rfl) fun _ => rfl) fun _ => .pure _
  · exact .bind (.change (fun _ => rfl) fun _ => rfl) fun _ => .pure _

theorem stopRecording : Trails stopRecording := by
  have dropped (fault : StorageFault) : Trails (recordingFailed fault) :=
    .bind (print _) fun _ => .change (fun _ => rfl) fun _ => rfl
  unfold Client.stopRecording
  refine .ask_bind fun c => ?_
  split
  · refine .bind (onDemoFile _ _) fun fault => ?_
    cases fault with
    | none => exact .bind (.change (fun _ => rfl) fun _ => rfl) fun _ => print _
    | some fault => exact dropped fault
  · exact print _

theorem hangUp : Trails hangUp := by
  unfold Client.hangUp
  refine .ask_bind fun c => ?_
  split
  · exact .change (fun _ => rfl) fun _ => rfl
  · exact .pure _

end Trails

/-- What is left when the connection has been dropped: some text may have been queued ahead of all other text. -/
structure Left (ahead : Text) (s t : Session) : Prop where
  connected : t.world.connected = false
  signon : t.world.signon = 0
  view : t.world.view = s.world.view
  shell : ∃ texts : List Text, t.shell = { s.shell with
    console := texts.foldl (fun console text => console.print text) s.shell.console
    pending := ahead ++ s.shell.pending }

theorem disconnect_left (s : Session) : ∃ t, disconnect s = .ok () t ∧ Further s t ∧ Left [] s t := by
  have forgotten (m : Session) (further : Further s m) :
      ∃ t, change (fun c => { c with socket := none, connected := false, signon := 0 }) m = .ok () t ∧
        Further s t ∧ Left [] s t :=
    ⟨_, rfl, ⟨further.view, further.demos, further.shell⟩, rfl, rfl, further.view, further.shell⟩
  have reached {act : Act Session Unit} (trails : Trails act) {m n : Session} (ran : act m = .ok () n) : Further m n := by
    have further := trails m
    rwa [ran] at further
  unfold disconnect
  rw [ask_at]
  by_cases playing : s.world.playing = true
  · obtain ⟨m, stopped, -⟩ := stopPlayback_spec s
    obtain ⟨t, last, left⟩ := forgotten m (reached .stopPlayback stopped)
    rw [if_pos playing]
    exact ⟨t, (Act.bind_of_ok stopped).trans last, left⟩
  · rw [if_neg playing]
    by_cases connected : s.world.connected = true
    · rw [if_pos connected]
      by_cases recording : s.world.recording = true
      · obtain ⟨m, stopped, -⟩ := stopRecording_spec s
        obtain ⟨n, hung, -⟩ := hangUp_spec m
        obtain ⟨t, last, left⟩ := forgotten n ((reached .stopRecording stopped).trans (reached .hangUp hung))
        rw [if_pos recording]
        exact ⟨t, (Act.bind_of_ok stopped).trans ((Act.bind_of_ok hung).trans last), left⟩
      · obtain ⟨n, hung, -⟩ := hangUp_spec s
        obtain ⟨t, last, left⟩ := forgotten n (reached .hangUp hung)
        rw [if_neg recording]
        exact ⟨t, (Act.bind_of_ok hung).trans last, left⟩
    · rw [if_neg connected]
      exact forgotten s (.refl s)

theorem gameError_left (message : Text) (s : Session) : ∃ t, gameError message s = .ok () t ∧ Left [] s t := by
  let told : Session := { s with
    shell := s.shell.print ("Host_Error: " ++ message ++ "\n"), world := { s.world with nextDemo := -1 } }
  obtain ⟨t, ran, -, left⟩ := disconnect_left told
  obtain ⟨texts, shell⟩ := left.shell
  exact ⟨t, ran, left.connected, left.signon, left.view, ("Host_Error: " ++ message ++ "\n") :: texts, shell⟩

/-- The line that plays a demo of the loop. -/
def playLine (name : Text) : Text := "play " ++ name ++ "\n"

/-- The demo in turn, or the first one if none is, is a demo of the loop. -/
theorem getD_inTurn_mem {demos : List Text} (listed : demos.isEmpty = false) (next : Int) :
    demos.getD (if 0 ≤ next && next < demos.length then next.toNat else 0) [] ∈ demos := by
  have some : 0 < demos.length := List.length_pos_iff.2 (List.isEmpty_eq_false_iff.1 listed)
  have within : (if 0 ≤ next && next < demos.length then next.toNat else 0) < demos.length := by
    split
    · rename_i bounds
      simp only [Bool.and_eq_true, decide_eq_true_eq] at bounds
      omega
    · exact some
  rw [List.getD_eq_getElem?_getD, List.getElem?_eq_getElem within]
  exact List.getElem_mem within

theorem queueNextDemo_left {s m : Session} (left : Left [] s m) : ∃ ahead t, queueNextDemo m = .ok () t ∧
    Left ahead s t ∧ (ahead ≠ [] → ∃ name ∈ m.world.demos, ahead = playLine name) := by
  obtain ⟨connected, signon, view, texts, shell⟩ := left
  unfold queueNextDemo
  rw [ask_at]
  dsimp only
  split
  · split
    · refine ⟨[], _, rfl, ⟨connected, signon, view, texts ++ ["No demos listed with startdemos\n".toList], ?_⟩, by simp⟩
      rw [List.foldl_append]
      exact congrArg (Shell.print _) shell
    · rename_i listed
      have member := getD_inTurn_mem (Bool.eq_false_of_not_eq_true listed) m.world.nextDemo
      generalize (if 0 ≤ m.world.nextDemo && m.world.nextDemo < m.world.demos.length then m.world.nextDemo.toNat
        else 0) = place at member ⊢
      generalize m.world.demos.getD place [] = name at member
      by_cases room : m.shell.hasRoom (playLine name) = true
      · refine ⟨playLine name, _, rfl, ⟨connected, signon, view, texts, ?_⟩, fun _ => ⟨name, member, rfl⟩⟩
        change m.shell.insertText (playLine name) = _
        rw [Shell.insertText, if_pos room, shell]
        rfl
      · refine ⟨[], _, rfl, ⟨connected, signon, view, texts ++ ["Cbuf_InsertText: overflow\n".toList], ?_⟩, by simp⟩
        change m.shell.insertText (playLine name) = _
        rw [Shell.insertText, if_neg room, List.foldl_append, shell]
        rfl
  · exact ⟨[], m, rfl, ⟨connected, signon, view, texts, shell⟩, by simp⟩

theorem endGame_left (s : Session) : ∃ ahead t, endGame s = .ok () t ∧ Left ahead s t ∧
    (ahead ≠ [] → ∃ name ∈ s.world.demos, ahead = playLine name) := by
  obtain ⟨m, ran, further, left⟩ := disconnect_left s
  obtain ⟨ahead, t, queued, left, named⟩ := queueNextDemo_left left
  rw [further.demos] at named
  exact ⟨ahead, t, (Act.bind_of_ok ran).trans queued, left, named⟩

/-- What the order at the front of the bytes, if it is one that was cut short, has done with what is there of it. -/
def attempted (s : Session) : Bytes → Session
  | 7 :: _ => carry s (.time Single.minusOne)
  | 8 :: body => carry s (.print body)
  | 9 :: body => carry s (.run body)
  | _ => s

theorem obey_stray {rest : Bytes} {orders : List Order} (stray : Order.Stray rest orders) (m : Session) :
    ∃ ahead t, obey orders m = .ok () t ∧ Left ahead (attempted m rest) t ∧
      (ahead ≠ [] → rest.head? = some 2 ∧ ∃ name ∈ m.world.demos, ahead = playLine name) := by
  have spoiled (s : Session) (message : Text) : ∃ ahead t, gameError message s = .ok () t ∧ Left ahead s t ∧
      (ahead ≠ [] → rest.head? = some 2 ∧ ∃ name ∈ m.world.demos, ahead = playLine name) := by
    obtain ⟨t, ran, left⟩ := gameError_left message s
    exact ⟨[], t, ran, left, by simp⟩
  cases stray with
  | leave after =>
    obtain ⟨ahead, t, ran, left, named⟩ := endGame_left m
    exact ⟨ahead, t, ran, left, fun some => ⟨rfl, named some⟩⟩
  | @illegible code after unknown =>
    have nothing : attempted m (code :: after) = m := by
      unfold attempted
      split
      · simp_all
      · simp_all
      · simp_all
      · rfl
    rw [nothing]
    exact spoiled m _
  | time short => exact spoiled (carry m (.time Single.minusOne)) _
  | print unended => exact spoiled (carry m (.print _)) _
  | run unended => exact spoiled (carry m (.run _)) _
  | signon =>
    rw [obey, ask_at]
    by_cases inOrder : signonInOrder (-1) m.world.signon = true
    · -- The stage that stands in for the missing one is forgotten with the connection.
      obtain ⟨ahead, t, ran, left, named⟩ := spoiled { m with world.signon := -1 } "CL_ParseServerMessage: Bad server message"
      rw [if_pos inOrder]
      exact ⟨ahead, t, ran, ⟨left.connected, left.signon, left.view, left.shell⟩, named⟩
    · rw [if_neg inOrder]
      exact spoiled m _

/-- The bytes go on, but not with a well-formed directive that could come at this stage of signing on. -/
def Faulty (signon : Int) (bytes : Bytes) : Prop :=
  bytes ≠ [] ∧ ∀ directive : Directive, directive.WellFormed → Rising signon [directive] → ¬directive.bytes <+: bytes

theorem obey_faulty {m : Session} {c : Message.Cursor} (fuel : Nat) (whole : c.short = false)
    (faulty : Faulty m.world.signon c.rest) :
    ∃ ahead t, obey (Order.readWithin (fuel + 2) c) m = .ok () t ∧ Left ahead (attempted m c.rest) t ∧
      (ahead ≠ [] → c.rest.head? = some 2 ∧ ∃ name ∈ m.world.demos, ahead = playLine name) := by
  obtain ⟨more, unfit⟩ := faulty
  by_cases astray : Astray c.rest
  · exact obey_stray (Order.readWithin_astray whole more astray) m
  · obtain ⟨directive, good, begins⟩ : ∃ directive : Directive, directive.WellFormed ∧ directive.bytes <+: c.rest := by
      simpa [Astray] using astray
    obtain ⟨after, there⟩ := begins
    obtain ⟨next, read, -⟩ := Order.readWithin_directive (fuel + 1) directive good whole there.symm
    cases directive with
    | signon number =>
      have wrong : ¬signonInOrder number.toNat m.world.signon = true :=
        fun inOrder => unfit (.signon number) trivial ⟨inOrder, trivial⟩ ⟨after, there⟩
      obtain ⟨t, ran, left⟩ := gameError_left
        ("Received signon " ++ Text.ofInt number.toNat ++ " when at " ++ Text.ofInt m.world.signon) m
      rw [read, Directive.order, obey, ask_at, if_neg wrong, ← there]
      exact ⟨[], t, ran, left, by simp⟩
    | nothing | time | print | run => exact absurd ⟨after, there⟩ (unfit _ good trivial)

theorem rising_cons {s : Session} {directive : Directive} {rest : List Directive} :
    Rising s.world.signon (directive :: rest) ↔
      Rising s.world.signon [directive] ∧ Rising (carry s directive).world.signon rest := by
  cases directive with
  | nothing | time | print | run => exact ⟨fun rising => ⟨trivial, rising⟩, And.right⟩
  | signon number => exact ⟨fun rising => ⟨⟨rising.1, trivial⟩, rising.2⟩, fun both => ⟨both.1.1, both.2⟩⟩

/-- Every message is a run of directives in order, and then nothing or something at fault. -/
theorem exists_spelled (s : Session) (bytes : Bytes) : ∃ directives rest, bytes = Directive.spell directives ++ rest ∧
    (∀ directive ∈ directives, directive.WellFormed) ∧ Rising s.world.signon directives ∧
    (rest = [] ∨ Faulty (carryAll s directives).world.signon rest) := by
  induction measured : bytes.length using Nat.strongRecOn generalizing bytes s with
  | ind size ih =>
    by_cases ends : bytes = [] ∨ Faulty s.world.signon bytes
    · exact ⟨[], bytes, rfl, by simp, trivial, ends⟩
    · obtain ⟨some, begins⟩ := not_or.1 ends
      obtain ⟨directive, good, rising, after, rfl⟩ : ∃ directive : Directive, directive.WellFormed ∧
          Rising s.world.signon [directive] ∧ directive.bytes <+: bytes := by
        simpa [Faulty, some] using begins
      have shorter : after.length < size := by
        have some : 0 < directive.bytes.length := Directive.length_bytes_pos directive
        rw [← measured, List.length_append]
        omega
      obtain ⟨directives, rest, rfl, better, onward, last⟩ := ih after.length shorter (carry s directive) after rfl
      refine ⟨directive :: directives, rest, by simp [Directive.spell], ?_, rising_cons.2 ⟨rising, onward⟩, last⟩
      simpa using ⟨good, better⟩

theorem connected_carryAll (s : Session) (directives : List Directive) :
    (carryAll s directives).world.connected = s.world.connected := by
  induction directives generalizing s with
  | nil => rfl
  | cons directive rest ih =>
    refine (ih (carry s directive)).trans ?_
    cases directive <;> rfl

theorem obeyMessage_spelled {s : Session} {directives : List Directive}
    (spelled : Spelled s.world.signon directives s.world.incoming.written) :
    obeyMessage s = .ok () (carryAll s directives) := by
  obtain ⟨next, fuel, read, whole, rest⟩ := Order.ofBytes_spelled spelled.good []
  rw [obeyMessage, ask_at, spelled.whole, ← List.append_nil (Directive.spell directives), read,
    obey_carried spelled.rising, Order.readWithin_end whole rest]
  rfl

/-- A client over a loopback, with a message to obey. -/
def hearing (message : Bytes) : Session :=
  { linkedSession with world.incoming := linkedSession.world.incoming.holding message }

/-- The first stage of signing on, and a time of one and a half seconds. -/
def greeting : List Directive := [.signon 1, .time ⟨0x3FC00000⟩]

/-- The greeting, and a time that is cut short. -/
def cutSession : Session := hearing (Directive.spell greeting ++ [7, 0])

end GameHost.Client
