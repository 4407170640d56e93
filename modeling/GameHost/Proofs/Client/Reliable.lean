import GameHost.Proofs.Client.Dispatch

/-!
What becomes of the commands for the server. What is handed to the driver are whole commands, of lines that were
queued for the connection it goes to. They stay in the queue until a driver takes them, an overflow or a new
connection, except that an answer that they cannot be taken now costs them too.
-/
namespace GameHost.Client
open GameHost.Message (Buffer)
open GameHost.Message.Buffer (Filled)
open GameHost.Network (Socket Driver Ledger taken)
open GameHost.Replay (Record Operation)
open Logged

theorem addCommand_ok {line : Line} {b t : Buffer} (forgiving : b.forgiving = true) (room : 1 < b.capacity)
    (first : Text.size (line.word 0) < b.capacity) (ran : addCommand line b = .ok () t) :
    Filled b (b.written ++ carrying line) t := by
  by_cases short : Text.size (ending line) < b.capacity
  · obtain ⟨other, ran', filled⟩ := addCommand_filled forgiving room first short
    cases ran.symm.trans ran'
    exact filled
  · obtain ⟨other, failed⟩ := addCommand_oversized forgiving room first (Nat.not_lt.1 short)
    cases ran.symm.trans failed

/-- A line that was queued, with the connection of that moment. -/
structure Post where
  socket : Option Socket
  line : Line
  deriving DecidableEq

def Post.bytes (post : Post) : Bytes := carrying post.line

/-- The lines queued since the queue was last emptied, and those taken by a driver, together as it took them. -/
structure Account where
  waiting : List Post
  taken : List (List Post)

namespace Event

/-- What is handed to the driver, and for which connection. -/
def handed : Event → Option (Socket × Bytes)
  | .offered socket payload => some (socket, payload)
  | .answered socket payload _ => some (socket, payload)
  | _ => none

/-- What the driver takes. -/
def accepted : Event → Option Bytes
  | .answered _ payload answer => if answer = 1 then some payload else none
  | _ => none

def posted : Event → Option Post
  | .queued socket line => some ⟨socket, line⟩
  | _ => none

/-- What a loopback is given to send. -/
def sent : Event → List (Int64 × Bytes)
  | .answered socket payload answer => taken socket payload answer
  | _ => []

/-- What has nothing to do with the queue. -/
def Apart : Event → Prop
  | .timed | .finished _ | .supplanted | .counted => True
  | _ => False

end Event

namespace Account

def note (account : Account) : Event → Account
  | .queued socket line => { account with waiting := account.waiting ++ [⟨socket, line⟩] }
  | .dropped | .joined _ => { account with waiting := [] }
  | .answered _ _ answer =>
    if answer = -1 then account
    else if answer = 1 then ⟨[], account.taken ++ [account.waiting]⟩
    else { account with waiting := [] }
  | .offered _ _ | .timed | .finished _ | .supplanted | .counted => account

def of (log : List Mark) : Account := (log.map Mark.event).foldl note ⟨[], []⟩

/-- The queue is that of a client, and unless it has overflowed it holds the commands of the lines that wait. With a
connection these are lines for it. -/
structure Stands (account : Account) (s : Session) : Prop where
  forgiving : s.world.outgoing.forgiving = true
  capacity : s.world.outgoing.capacity = outgoingLimit
  whole : s.world.outgoing.overflowed = false → s.world.outgoing.written = account.waiting.flatMap Post.bytes
  owned : ∀ socket, s.world.socket = some socket → ∀ post ∈ account.waiting, post.socket = some socket
  lines : ∀ post ∈ account.waiting, ∃ text, post.line = Line.ofText text

theorem note_apart {event : Event} (apart : event.Apart) (account : Account) : account.note event = account := by
  cases event with
  | timed | finished | supplanted | counted => rfl
  | _ => exact apart.elim

theorem of_append_one (log : List Mark) (mark : Mark) : of (log ++ [mark]) = (of log).note mark.event := by
  simp [of]

end Account

/-- What an event does to what leads to the server. -/
inductive Effect : Session → Event → Session → Prop where
  | apart {s t : Session} {event : Event} (apart : event.Apart) (parting : Parting s t) : Effect s event t
  | happened {s t : Session} {event : Event} (happened : Happened s event t) : Effect s event t

variable {whole : Bool} {s t : Session} {h m n : LoggedSession} {event : Event}

theorem remarks_apart (s t : Session) :
    remarks s t = [] ∨ ∃ event, event.Apart ∧ remarks s t = [⟨event, t.world.outgoing⟩] := by
  unfold remarks
  split
  · cases t.world.report with
    | none => exact .inl rfl
    | some report => exact .inr ⟨.finished report, trivial, rfl⟩
  · exact .inl rfl

/-- With every step the journal stays as it is, or it gets one mark more, of what has happened. -/
theorem Advance.marked (advance : Advance whole h n) : (n.world.log = h.world.log ∧ Parting (plain h) (plain n)) ∨
    ∃ event, n.world.log = h.world.log ++ [⟨event, n.world.client.outgoing⟩] ∧ Effect (plain h) event (plain n) := by
  cases advance with
  | called passage _ log =>
    rcases remarks_apart (plain h) (plain n) with none | ⟨event, apart, one⟩
    · rw [none, List.append_nil] at log
      exact .inl ⟨log, passage.parting⟩
    · rw [one] at log
      exact .inr ⟨event, log, .apart apart passage.parting⟩
  | noted happened _ log => exact .inr ⟨_, log, .happened happened⟩

namespace Account.Stands

variable {account : Account}

/-- The queue is as it was, and so is the connection unless there is none any more. -/
theorem of_queue (stands : account.Stands s) (queue : t.world.outgoing = s.world.outgoing)
    (socket : t.world.socket = s.world.socket ∨ t.world.socket = none) : account.Stands t := by
  obtain ⟨forgiving, capacity, whole, owned, lines⟩ := stands
  rw [← queue] at forgiving capacity whole
  refine ⟨forgiving, capacity, whole, fun other linked => ?_, lines⟩
  rcases socket with same | alone
  · exact owned other (same.symm.trans linked)
  · exact nomatch alone.symm.trans linked

theorem of_cleared (stands : account.Stands s) (queue : t.world.outgoing = s.world.outgoing.clear)
    (taken : List (List Post)) : Stands ⟨[], taken⟩ t := by
  constructor
  · rw [queue]
    exact stands.forgiving
  · rw [queue, Message.Buffer.capacity_clear]
    exact stands.capacity
  · intro _
    rw [queue]
    rfl
  · simp
  · simp

theorem filled (stands : account.Stands s) {text : Text} {queue : Buffer} (line : s.shell.line = Line.ofText text)
    (added : addCommand s.shell.line s.world.outgoing = .ok () queue) :
    Filled s.world.outgoing (s.world.outgoing.written ++ carrying s.shell.line) queue := by
  have room : 1 < s.world.outgoing.capacity := by
    rw [stands.capacity]
    decide
  have first : Text.size (s.shell.line.word 0) < s.world.outgoing.capacity := by
    rw [stands.capacity, line]
    exact Nat.lt_trans (Line.fits_word text 0).1 (by decide)
  exact addCommand_ok stands.forgiving room first added

theorem of_queued (stands : account.Stands s) {text : Text} {queue : Buffer} (line : s.shell.line = Line.ofText text)
    (added : addCommand s.shell.line s.world.outgoing = .ok () queue) (now : outlet t = { outlet s with queue }) :
    (account.note (.queued s.world.socket s.shell.line)).Stands t := by
  obtain ⟨steady, fits, full⟩ := stands.filled line added
  have there : t.world.outgoing = queue := congrArg Outlet.queue now
  have linked : t.world.socket = s.world.socket := congrArg Outlet.socket now
  constructor
  · rw [there, steady.forgiving]
    exact stands.forgiving
  · rw [there, steady.capacity]
    exact stands.capacity
  · intro unspoilt
    rw [there] at unspoilt ⊢
    by_cases short : (s.world.outgoing.written ++ carrying s.shell.line).length ≤ s.world.outgoing.capacity
    · obtain ⟨written, same⟩ := fits short
      rw [written, stands.whole (same.symm.trans unspoilt)]
      simp [note, Post.bytes]
    · rw [full (Nat.not_le.1 short)] at unspoilt
      cases unspoilt
  · intro socket now post member
    rw [linked] at now
    rcases List.mem_append.1 member with earlier | last
    · exact stands.owned socket now post earlier
    · rw [List.mem_singleton.1 last]
      exact now
  · intro post member
    rcases List.mem_append.1 member with earlier | last
    · exact stands.lines post earlier
    · rw [List.mem_singleton.1 last]
      exact ⟨text, line⟩

theorem of_effect (stands : account.Stands s) (effect : Effect s event t) : (account.note event).Stands t := by
  cases effect with
  | apart apart parting =>
    rw [note_apart apart]
    exact stands.of_queue parting.queue parting.socket
  | happened happened =>
    cases happened with
    | queued _ _ line added now _ => exact stands.of_queued line added now
    | dropped _ now _ => exact stands.of_cleared (congrArg Outlet.queue now) _
    | offered _ => exact stands
    | @answered _ _ _ _ answer waits ran now _ =>
      have sent := outlet_send waits.there ran
      by_cases lost : answer = -1
      · rw [if_pos lost, sent] at now
        simp only [note, if_pos lost]
        exact stands.of_queue (congrArg Outlet.queue now) (.inl (congrArg Outlet.socket now))
      · rw [if_neg lost] at now
        simp only [note, if_neg lost]
        split
        · exact stands.of_cleared (congrArg Outlet.queue now) _
        · exact stands.of_cleared (congrArg Outlet.queue now) _
    | joined now _ => exact stands.of_cleared (congrArg Outlet.queue now) _
    | timed _ | counted => exact stands.of_queue rfl (.inl rfl)
    | supplanted _ _ _ now _ => exact stands.of_queue (congrArg Outlet.queue now) (.inl (congrArg Outlet.socket now))

end Account.Stands

/-- An event, with the queue before and after it. -/
structure Deal where
  event : Event
  before : Buffer
  after : Buffer

/-- The events of a journal that was begun with a certain queue. -/
def dealings (queue : Buffer) : List Mark → List Deal
  | [] => []
  | mark :: later => ⟨mark.event, queue, mark.queue⟩ :: dealings mark.queue later

/-- The queue as the journal tells it last. -/
def latest (queue : Buffer) (log : List Mark) : Buffer := (log.getLast?.map Mark.queue).getD queue

theorem latest_append_one (queue : Buffer) (log : List Mark) (mark : Mark) : latest queue (log ++ [mark]) = mark.queue := by
  simp [latest]

theorem latest_cons (queue : Buffer) (mark : Mark) (log : List Mark) :
    latest queue (mark :: log) = latest mark.queue log := by
  cases log <;> simp [latest, List.getLast?_cons]

theorem dealings_append_one (queue : Buffer) (log : List Mark) (mark : Mark) :
    dealings queue (log ++ [mark]) = dealings queue log ++ [⟨mark.event, latest queue log, mark.queue⟩] := by
  induction log generalizing queue with
  | nil => rfl
  | cons first log ih => rw [List.cons_append, dealings, ih, latest_cons, dealings, List.cons_append]

namespace Deal

/-- What was in the queue is still there, ahead of all else. -/
def Keeps (deal : Deal) : Prop := deal.before.written <+: deal.after.written

/-- The queue may be emptied: a driver has taken it, or it has overflowed, or there is a new connection. -/
def Excused (deal : Deal) : Prop :=
  match deal.event with
  | .answered _ _ answer => answer = 1
  | .queued _ _ => deal.after.overflowed = true
  | .dropped | .joined _ => True
  | _ => False

/-- A driver has answered that it cannot take the queue now. -/
def Refused (deal : Deal) : Prop :=
  ∃ socket payload answer, deal.event = .answered socket payload answer ∧ answer ≠ 1 ∧ answer ≠ -1

theorem keeps_of_same {event : Event} {before after : Buffer} (same : after = before) : Keeps ⟨event, before, after⟩ := by
  subst same
  exact List.prefix_refl _

/-- Only a driver's answer can be a refusal. -/
theorem kept_iff_of_other {deal : Deal} (other : ∀ socket payload answer, deal.event ≠ .answered socket payload answer)
    (kept : deal.Keeps ∨ deal.Excused) : (deal.Keeps ∨ deal.Excused) ↔ ¬ deal.Refused := by
  apply iff_of_true kept
  rintro ⟨socket, payload, answer, same, _⟩
  exact other socket payload answer same

theorem kept_iff_of_answered {m : Session} {net : Driver} {socket : Socket} {answer : Int32} (waits : Waits s net socket)
    (ran : exchange net (Driver.send socket s.world.outgoing.written) s = .ok answer m)
    (now : outlet t = if answer = -1 then outlet m else { outlet m with queue := s.world.outgoing.clear }) {deal : Deal}
    (same : deal = ⟨.answered socket s.world.outgoing.written answer, s.world.outgoing, t.world.outgoing⟩) :
    (deal.Keeps ∨ deal.Excused) ↔ ¬ deal.Refused := by
  subst same
  by_cases took : answer = 1
  · apply iff_of_true (.inr took)
    rintro ⟨_, _, _, ⟨⟩, other, _⟩
    exact other took
  by_cases lost : answer = -1
  · rw [if_pos lost, outlet_send waits.there ran] at now
    apply iff_of_true (.inl (keeps_of_same (congrArg Outlet.queue now)))
    rintro ⟨_, _, _, ⟨⟩, _, other⟩
    exact other lost
  · rw [if_neg lost] at now
    apply iff_of_false ?_ (not_not.2 ⟨socket, _, answer, rfl, took, lost⟩)
    rintro (kept | excused)
    · have cleared : t.world.outgoing = s.world.outgoing.clear := congrArg Outlet.queue now
      unfold Keeps at kept
      rw [cleared] at kept
      have none : s.world.outgoing.written = [] := List.prefix_nil.1 kept
      apply waits.nonempty
      rw [← Message.Buffer.length_written, none]
      rfl
    · exact took excused

end Deal

theorem Effect.kept_iff {account : Account} (stands : account.Stands s) (effect : Effect s event t) {deal : Deal}
    (same : deal = ⟨event, s.world.outgoing, t.world.outgoing⟩) : (deal.Keeps ∨ deal.Excused) ↔ ¬ deal.Refused := by
  subst same
  cases effect with
  | apart apart parting =>
    refine Deal.kept_iff_of_other ?_ (.inl (Deal.keeps_of_same parting.queue))
    rintro _ _ _ rfl
    exact apart
  | happened happened =>
    cases happened with
    | answered waits ran now _ => exact Deal.kept_iff_of_answered waits ran now rfl
    | offered | timed | counted => exact Deal.kept_iff_of_other nofun (.inl (Deal.keeps_of_same rfl))
    | supplanted _ _ _ now _ => exact Deal.kept_iff_of_other nofun (.inl (Deal.keeps_of_same (congrArg Outlet.queue now)))
    | dropped | joined => exact Deal.kept_iff_of_other nofun (.inr trivial)
    | queued _ _ line added now _ =>
      obtain ⟨_, fits, full⟩ := stands.filled line added
      have there : t.world.outgoing = _ := congrArg Outlet.queue now
      refine Deal.kept_iff_of_other nofun ?_
      by_cases short : (s.world.outgoing.written ++ carrying s.shell.line).length ≤ s.world.outgoing.capacity
      · left
        unfold Deal.Keeps
        rw [there, (fits short).1]
        exact List.prefix_append _ _
      · right
        exact (congrArg Buffer.overflowed there).trans (full (Nat.not_le.1 short))

theorem Effect.handed {socket : Socket} {payload : Bytes} (effect : Effect s event t)
    (handed : event.handed = some (socket, payload)) :
    s.world.socket = some socket ∧ s.world.outgoing.overflowed = false ∧ payload = s.world.outgoing.written := by
  cases effect with
  | apart apart _ =>
    cases event with
    | timed | finished | supplanted | counted => cases handed
    | _ => exact apart.elim
  | happened happened =>
    cases happened with
    | offered waits | answered waits _ _ _ =>
      cases handed
      exact ⟨waits.linked, waits.whole, rfl⟩
    | _ => cases handed

/-- Whole commands are no farewell. -/
theorem commands_ne_farewell (posts : List Post) : posts.flatMap Post.bytes ≠ farewell := by
  cases posts with
  | nil => exact nofun
  | cons post later =>
    intro same
    have first : ((post :: later).flatMap Post.bytes).head? = some 4 := rfl
    rw [same] at first
    exact absurd first (by decide)

/-- A loopback is given what it takes, and farewells. -/
theorem Effect.given {account : Account} (stands : account.Stands s) (effect : Effect s event t) :
    ∃ given, (outlet t).ledger = (outlet s).ledger.map (Ledger.add given) ∧
      given.filter (fun message => message.2 != farewell) = event.sent := by
  have quiet (same : (outlet t).ledger = (outlet s).ledger) (silent : event.sent = []) :
      ∃ given, (outlet t).ledger = (outlet s).ledger.map (Ledger.add given) ∧
        given.filter (fun message => message.2 != farewell) = event.sent :=
    ⟨[], same.trans (nothing_told s), silent.symm⟩
  cases effect with
  | apart apart parting =>
    obtain ⟨told, farewells, ledger⟩ := parting.told
    refine ⟨told, ledger, ?_⟩
    have silent : event.sent = [] := by
      cases event with
      | timed | finished | supplanted | counted => rfl
      | _ => exact apart.elim
    rw [silent, List.filter_eq_nil_iff]
    intro message member
    simp [farewells message member]
  | happened happened =>
    cases happened with
    | queued _ _ _ _ now _ | dropped _ now _ | joined now _ | supplanted _ _ _ now _ =>
      have same : (outlet t).ledger = (outlet s).ledger := by rw [now]
      exact quiet same rfl
    | offered | timed | counted => exact quiet rfl rfl
    | @answered m _ _ socket answer waits ran now _ =>
      have sent := congrArg Outlet.ledger (outlet_send waits.there ran)
      have ledger : (outlet t).ledger = (outlet m).ledger := by
        rw [now]
        split <;> rfl
      refine ⟨_, ledger.trans sent, ?_⟩
      have commands : s.world.outgoing.written ≠ farewell := by
        rw [stands.whole waits.whole]
        exact commands_ne_farewell _
      change (taken socket s.world.outgoing.written answer).filter _ = taken socket s.world.outgoing.written answer
      unfold taken
      split
      · simp [commands]
      · rfl

namespace Account

/-- All lines that have been queued and are not lost. -/
def lines (account : Account) : List Post := account.taken.flatten ++ account.waiting

theorem lines_note (account : Account) (event : Event) :
    (account.note event).lines.Sublist (account.lines ++ event.posted.toList) := by
  cases event with
  | answered socket payload answer =>
    simp only [note, Event.posted]
    split
    · simp
    · split <;> simp [lines]
  | _ => simp [note, lines, Event.posted]

theorem lines_foldl (account : Account) (events : List Event) :
    (events.foldl note account).lines.Sublist (account.lines ++ events.filterMap Event.posted) := by
  induction events generalizing account with
  | nil => simp
  | cons event rest ih =>
    have first := (lines_note account event).append_right (rest.filterMap Event.posted)
    have split : account.lines ++ (event :: rest).filterMap Event.posted =
        account.lines ++ event.posted.toList ++ rest.filterMap Event.posted := by
      cases posted : event.posted <;> simp [posted]
    rw [split]
    exact (ih _).trans first

theorem lines_of (log : List Mark) : (of log).lines.Sublist (log.filterMap fun mark => mark.event.posted) := by
  have all := lines_foldl ⟨[], []⟩ (log.map Mark.event)
  rwa [List.filterMap_map] at all

/-- What a driver takes are the lines that wait then. -/
theorem taken_note {account : Account} (stands : account.Stands s) (effect : Effect s event t) :
    (account.note event).taken.map (·.flatMap Post.bytes) =
      account.taken.map (·.flatMap Post.bytes) ++ event.accepted.toList := by
  cases effect with
  | apart apart _ =>
    cases event with
    | timed | finished | supplanted | counted => simp [note, Event.accepted]
    | _ => exact apart.elim
  | happened happened =>
    cases happened with
    | answered waits _ _ _ =>
      simp only [note, Event.accepted]
      split
      · rename_i lost
        have other : ¬ (-1 : Int32) = 1 := by decide
        simp [lost, other]
      · split <;> simp [stands.whole waits.whole]
    | _ => simp [note, Event.accepted]

end Account

/-- What is handed over are the whole commands of the lines that wait, and these were queued for the connection. -/
def Account.Hands (account : Account) (event : Event) : Prop :=
  ∀ socket payload, event.handed = some (socket, payload) → payload = account.waiting.flatMap Post.bytes ∧
    ∀ post ∈ account.waiting, post.socket = some socket ∧ ∃ text, post.line = Line.ofText text

theorem Effect.hands {account : Account} (stands : account.Stands s) (effect : Effect s event t) : account.Hands event := by
  intro socket payload handed
  obtain ⟨linked, whole, rfl⟩ := effect.handed handed
  exact ⟨stands.whole whole, fun post member => ⟨stands.owned socket linked post member, stands.lines post member⟩⟩

/-- What the journal of a session tells of the queue, from where the session began with it. -/
structure Faithful (s : Session) (h : LoggedSession) : Prop where
  stands : (Account.of h.world.log).Stands (plain h)
  queue : h.world.client.outgoing = latest s.world.outgoing h.world.log
  kept_iff : ∀ deal ∈ dealings s.world.outgoing h.world.log, (deal.Keeps ∨ deal.Excused) ↔ ¬ deal.Refused
  taken : (Account.of h.world.log).taken.map (·.flatMap Post.bytes) = h.world.log.filterMap fun mark => mark.event.accepted
  hands : ∀ early mark later, h.world.log = early ++ mark :: later → (Account.of early).Hands mark.event
  given : ∃ given, (outlet (plain h)).ledger = (outlet s).ledger.map (Ledger.add given) ∧
    given.filter (fun message => message.2 != farewell) = h.world.log.flatMap fun mark => mark.event.sent

namespace Faithful

variable {start : Session}

theorem opened (empty : start.world.outgoing = Buffer.overflowing outgoingLimit) : Faithful start (opened start) := by
  have queue : (plain (Logged.opened start)).world.outgoing = Buffer.overflowing outgoingLimit := empty
  constructor
  case stands =>
    constructor
    · rw [queue]
      rfl
    · rw [queue]
      exact Nat.zero_add _
    · intro _
      rw [queue]
      rfl
    · exact nofun
    · exact nofun
  case queue => rfl
  case kept_iff => exact nofun
  case taken => rfl
  case hands => exact fun early mark later split => absurd split (by cases early <;> exact nofun)
  case given => exact ⟨[], nothing_told start, rfl⟩

theorem ledger_trans {given more : List (Int64 × Bytes)} (first : (outlet s).ledger = (outlet start).ledger.map (Ledger.add given))
    (second : (outlet t).ledger = (outlet s).ledger.map (Ledger.add more)) :
    (outlet t).ledger = (outlet start).ledger.map (Ledger.add (given ++ more)) := by
  rw [second, first, Option.map_map]
  congr 1
  funext ledger
  exact ledger.add_add _ _

theorem unmarked (faithful : Faithful start h) (log : n.world.log = h.world.log) (parting : Parting (plain h) (plain n)) :
    Faithful start n := by
  obtain ⟨stands, queue, kept_iff, taken, hands, given, ledger, payloads⟩ := faithful
  obtain ⟨told, farewells, more⟩ := parting.told
  rw [← log] at stands queue kept_iff taken hands payloads
  refine ⟨stands.of_queue parting.queue parting.socket, parting.queue.trans queue, kept_iff, taken, hands, given ++ told,
    ledger_trans ledger more, ?_⟩
  have none : told.filter (fun message => message.2 != farewell) = [] := by
    rw [List.filter_eq_nil_iff]
    intro message member
    simp [farewells message member]
  rw [List.filter_append, none, List.append_nil, payloads]

theorem marked (faithful : Faithful start h) (log : n.world.log = h.world.log ++ [⟨event, n.world.client.outgoing⟩])
    (effect : Effect (plain h) event (plain n)) : Faithful start n := by
  obtain ⟨stands, queue, kept_iff, taken, hands, given, ledger, payloads⟩ := faithful
  obtain ⟨more, onward, sent⟩ := effect.given stands
  constructor
  case stands =>
    rw [log, Account.of_append_one]
    exact stands.of_effect effect
  case queue => rw [log, latest_append_one]
  case kept_iff =>
    rw [log, dealings_append_one, ← queue]
    intro deal member
    rcases List.mem_append.1 member with before | last
    · exact kept_iff deal before
    · exact effect.kept_iff stands (List.mem_singleton.1 last)
  case taken =>
    rw [log, Account.of_append_one, Account.taken_note stands effect, taken, List.filterMap_append]
    cases accepted : event.accepted <;> simp [accepted]
  case hands =>
    intro early mark later split
    rw [log] at split
    rcases split_of_append_one split with ⟨rfl, rfl⟩ | ⟨more, before⟩
    · exact effect.hands stands
    · exact hands early mark more before
  case given =>
    refine ⟨given ++ more, ledger_trans ledger onward, ?_⟩
    rw [log, List.filter_append, payloads, sent, List.flatMap_append, List.flatMap_singleton]

theorem advance (faithful : Faithful start h) (advance : Advance whole h n) : Faithful start n := by
  rcases advance.marked with ⟨log, parting⟩ | ⟨event, log, effect⟩
  · exact faithful.unmarked log parting
  · exact faithful.marked log effect

theorem advances (faithful : Faithful start h) (path : Advances whole h n) : Faithful start n := by
  induction path with
  | here => exact faithful
  | step first _ ih => exact ih (faithful.advance first)

end Faithful

/-- The queue that an outcome leaves. If a run fails, a line may have come only partly into it. -/
def LeavesQueue (queue : Buffer) {α : Type} : EStateM.Result Fault Session α → Prop
  | .ok _ t => t.world.outgoing = queue
  | .error _ t => t.world.outgoing = queue ∨ ∃ line fault, addCommand line queue = .error fault t.world.outgoing

/-- What the journal of a run tells is so up to its end, or to where it fails. -/
theorem faithful_of_run (empty : s.world.outgoing = Buffer.overflowing outgoingLimit) (inputs : List Input) :
    ∃ h, Faithful s h ∧ h.world.log = journal inputs s ∧ LeavesQueue h.world.client.outgoing (Input.states inputs s) ∧
      ∀ states t, Input.states inputs s = .ok states t → plain h = t := by
  have start : Faithful s (opened s) := .opened empty
  obtain ⟨alike, reached⟩ := Mirrors.states inputs (h := opened s)
  rw [show Input.states inputs s = _ from alike.symm]
  unfold journal
  cases ran : Logged.states inputs (opened s) with
  | ok states h =>
    rw [ran] at reached
    cases reached with
    | ok path =>
      refine ⟨h, start.advances path, rfl, rfl, ?_⟩
      rintro _ _ ⟨⟩
      rfl
  | error fault t =>
    rw [ran] at reached
    cases reached with
    | error path stuck =>
      refine ⟨_, start.advances path, stuck.log.symm, ?_, fun states u other => ?_⟩
      · rcases stuck.queue with same | ⟨fault, failed⟩
        · exact .inl same
        · exact .inr ⟨_, fault, failed⟩
      · cases other

theorem zero_notin_spoken {text : Text} (clean : Char.ofNat 0 ∉ text) :
    0 ∉ Text.encode (spoken (Line.ofText text)) := by
  apply Text.zero_notin_encode
  unfold spoken ending
  rw [List.mem_append]
  rintro (first | last)
  · split at first
    · cases first
    · rcases List.mem_append.1 first with word | blank
      · exact clean ((Line.fits_word text 0).2 word)
      · exact absurd blank (by decide)
  · split at last
    · exact clean (Line.tail_subset text last)
    · exact absurd last (by decide)

/-- What is handed to a driver for a connection is made of whole commands, those of the lines that were queued since the
queue was last empty, and all of them were queued for that connection. -/
theorem payload_of_whole_commands (empty : s.world.outgoing = Buffer.overflowing outgoingLimit) (inputs : List Input) :
    erased (Logged.states inputs (opened s)) = Input.states inputs s ∧
    (∀ states t, Input.states inputs s = .ok states t →
      ∃ given, (outlet t).ledger = (outlet s).ledger.map (Ledger.add given) ∧
        given.filter (fun message => message.2 != farewell) =
          (journal inputs s).flatMap fun mark => mark.event.sent) ∧
    ∀ early mark later socket payload, journal inputs s = early ++ mark :: later →
      mark.event.handed = some (socket, payload) →
        payload = (Account.of early).waiting.flatMap Post.bytes ∧
        ∀ post ∈ (Account.of early).waiting, post.socket = some socket ∧ ∃ text, post.line = Line.ofText text ∧
          (Char.ofNat 0 ∉ text → 0 ∉ Text.encode (spoken post.line)) := by
  obtain ⟨h, faithful, log, _, ended⟩ := faithful_of_run empty inputs
  refine ⟨(Mirrors.states inputs).alike, fun states t ran => ?_, ?_⟩
  · rw [← ended states t ran, ← log]
    exact faithful.given
  · intro early mark later socket payload split handed
    rw [← log] at split
    obtain ⟨same, posts⟩ := faithful.hands early mark later split socket payload handed
    refine ⟨same, fun post member => ?_⟩
    obtain ⟨owned, text, line⟩ := posts post member
    refine ⟨owned, text, line, fun clean => ?_⟩
    rw [line]
    exact zero_notin_spoken clean

/-- Two lines are run, and a frame follows. -/
def twoLines : List Input :=
  [.host (.run "cmd say hi" .player), .host (.run "god" .player), .host (.frame .zero)]

def twoPosts : List Post := [⟨some ⟨1, "a"⟩, Line.ofText "cmd say hi"⟩, ⟨some ⟨1, "a"⟩, Line.ofText "god"⟩]

theorem two_lines_handed : ∃ early mark later payload given, journal twoLines linkedSession = early ++ mark :: later ∧
    (Account.of early).waiting = twoPosts ∧ mark.event.handed = some (⟨1, "a"⟩, payload) ∧
    payload = twoPosts.flatMap Post.bytes ∧ (∀ post ∈ twoPosts, post.socket = some ⟨1, "a"⟩) ∧
    (outlet (Act.final (Input.states twoLines linkedSession))).ledger = some (some given) ∧
    given.filter (fun message => message.2 != farewell) =
      (journal twoLines linkedSession).flatMap fun mark => mark.event.sent := by
  obtain ⟨went, waiting, handed, silent⟩ : Act.ends (fun _ _ => true) (Input.states twoLines linkedSession) = true ∧
      (Account.of ((journal twoLines linkedSession).take 2)).waiting = twoPosts ∧
      ((journal twoLines linkedSession).map fun mark => mark.event.handed.map Prod.fst) =
        [none, none] ++ some ⟨1, "a"⟩ :: [some ⟨1, "a"⟩, none] ∧
      (outlet linkedSession).ledger = some (some []) := by
    decide +kernel
  obtain ⟨_, sent, whole⟩ := payload_of_whole_commands (s := linkedSession) rfl twoLines
  obtain ⟨states, t, ran, _⟩ := Act.ok_of_ends went
  obtain ⟨given, ledger, payloads⟩ := sent states t ran
  obtain ⟨early, rest, split, before, after⟩ := List.map_eq_append_iff.1 handed
  obtain ⟨mark, later, rfl, here, _⟩ := List.map_eq_cons_iff.1 after
  obtain ⟨⟨socket, payload⟩, handed, rfl⟩ := Option.map_eq_some_iff.1 here
  have two : early.length = 2 := by simpa using congrArg List.length before
  have first : (journal twoLines linkedSession).take 2 = early := by rw [split, ← two, List.take_left]
  rw [first] at waiting
  obtain ⟨same, posts⟩ := whole early mark later _ payload split handed
  rw [waiting] at same posts
  refine ⟨early, mark, later, payload, given, split, waiting, handed, same, fun post member => (posts post member).1, ?_, payloads⟩
  rw [ran, show Act.final (.ok states t : EStateM.Result Fault Session _) = t from rfl, ledger, silent]
  rfl

/-- While a driver is not ready nothing happens to the queue; when it is ready the whole queue is handed to it. -/
theorem sendCommands_of_asked {m : Session} {net : Driver} {socket : Socket} {ready : Bool}
    (quiet : s.world.playing = false) (waits : Waits s net socket)
    (asked : exchange net (Driver.canSend socket) s = .ok ready m) :
    m.world.outgoing = s.world.outgoing ∧
      sendCommands s = (if ready then offering net socket s.world.outgoing.written else pure ()) m := by
  refine ⟨congrArg Outlet.queue (canSend_same waits.there asked), ?_⟩
  have some : (s.world.outgoing.size == 0) = false := by simpa using waits.nonempty
  unfold sendCommands
  rw [ask_at, quiet, some, waits.whole, waits.there, waits.linked]
  exact Act.bind_of_ok asked

/-- The commands that wait are kept, in every run and with every driver, exactly if no driver answers that it cannot
take them now. None is taken twice, and those that are not taken yet are handed over again. -/
theorem commands_kept_iff_none_refused (empty : s.world.outgoing = Buffer.overflowing outgoingLimit) :
    (∀ inputs, erased (Logged.states inputs (opened s)) = Input.states inputs s ∧
      ((∀ deal ∈ dealings s.world.outgoing (journal inputs s), deal.Keeps ∨ deal.Excused) ↔
        ∀ deal ∈ dealings s.world.outgoing (journal inputs s), ¬ deal.Refused) ∧
      ((journal inputs s).filterMap fun mark => mark.event.accepted) =
        (Account.of (journal inputs s)).taken.map (·.flatMap Post.bytes) ∧
      (Account.of (journal inputs s)).lines.Sublist ((journal inputs s).filterMap fun mark => mark.event.posted) ∧
      LeavesQueue (latest s.world.outgoing (journal inputs s)) (Input.states inputs s)) ∧
    ∀ u m net socket ready, u.world.playing = false → Waits u net socket →
      exchange net (Driver.canSend socket) u = .ok ready m →
        m.world.outgoing = u.world.outgoing ∧
          sendCommands u = (if ready then offering net socket u.world.outgoing.written else pure ()) m := by
  refine ⟨fun inputs => ?_, fun _ _ _ _ _ => sendCommands_of_asked⟩
  obtain ⟨h, faithful, log, leaves, _⟩ := faithful_of_run empty inputs
  rw [faithful.queue] at leaves
  rw [← log]
  refine ⟨(Mirrors.states inputs).alike, ?_, faithful.taken.symm, Account.lines_of h.world.log, leaves⟩
  exact forall₂_congr faithful.kept_iff

/-- A recorded driver that was ready for a message and could not take it then. -/
def refusing : Driver :=
  .player ⟨some ⟨.zero, Operation.ready.code, 1⟩, Intake.fresh,
    Packed.ofBytes (Bytes.ofInt32 1 ++ Record.encode ⟨.zero, Operation.send.code, 1⟩ ++ Bytes.ofInt32 0), .zero⟩

def refusedSession : Session := { linkedSession with world.net := some refusing }

/-- A line is run, and a frame follows. -/
def oneLine : List Input := [.host (.run "cmd say hi" .player), .host (.frame .zero)]

theorem refused_line_lost :
    (Act.final (Input.states oneLine refusedSession)).world.outgoing.written = [] ∧
    ((journal oneLine refusedSession).filterMap fun mark => mark.event.posted) =
      [⟨some ⟨1, "a"⟩, Line.ofText "cmd say hi"⟩] ∧
    ((journal oneLine refusedSession).filterMap fun mark => mark.event.accepted) = [] ∧
    ¬ ∀ deal ∈ dealings refusedSession.world.outgoing (journal oneLine refusedSession), deal.Keeps ∨ deal.Excused := by
  obtain ⟨gone, posted, accepted, last⟩ :
      (Act.final (Input.states oneLine refusedSession)).world.outgoing.written = [] ∧
      ((journal oneLine refusedSession).filterMap fun mark => mark.event.posted) =
        [⟨some ⟨1, "a"⟩, Line.ofText "cmd say hi"⟩] ∧
      ((journal oneLine refusedSession).filterMap fun mark => mark.event.accepted) = [] ∧
      ((dealings refusedSession.world.outgoing (journal oneLine refusedSession)).getLast?.map Deal.event) =
        some (.answered ⟨1, "a"⟩ (carrying (Line.ofText "cmd say hi")) 0) := by
    decide +kernel
  refine ⟨gone, posted, accepted, ?_⟩
  obtain ⟨kept_iff, _⟩ := (commands_kept_iff_none_refused (s := refusedSession) rfl).1 oneLine |>.2
  rw [kept_iff]
  intro none
  obtain ⟨deal, there, event⟩ := Option.map_eq_some_iff.1 last
  exact none deal (List.mem_of_getLast? there) ⟨_, _, 0, event, by decide, by decide⟩

end GameHost.Client
