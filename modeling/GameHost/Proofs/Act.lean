import GameHost.Fault

/-!
Runs of actions taken apart. A run of a sequence that ends well is a run of its first part that ends well
and a run of what follows from there.
-/
namespace GameHost.Act

variable {ε σ τ α β : Type}

def final : EStateM.Result ε σ α → σ
  | .ok _ s => s
  | .error _ s => s

/-- Whether an outcome is a good one, with a state that passes. -/
def ends (passes : α → σ → Bool) : EStateM.Result ε σ α → Bool
  | .ok a s => passes a s
  | .error _ _ => false

theorem ok_of_ends {passes : α → σ → Bool} {outcome : EStateM.Result ε σ α} (good : ends passes outcome = true) :
    ∃ a s, outcome = .ok a s ∧ passes a s = true := by
  cases outcome with
  | ok a s => exact ⟨a, s, rfl, good⟩
  | error fault s => cases good

theorem ok_final [BEq α] [LawfulBEq α] {a : α} {outcome : EStateM.Result ε σ α}
    (good : ends (fun b _ => b == a) outcome = true) : outcome = .ok a (final outcome) := by
  obtain ⟨b, s, rfl, same⟩ := ok_of_ends good
  rw [eq_of_beq same]
  rfl

@[simp] theorem pure_eq (a : α) (s : σ) : (pure a : Act σ α) s = .ok a s := rfl

@[simp] theorem modify_eq (f : σ → σ) (s : σ) : (modify f : Act σ PUnit) s = .ok ⟨⟩ (f s) := rfl

theorem bind_of_ok {act : EStateM ε σ α} {f : α → EStateM ε σ β} {s m : σ} {a : α} (first : act s = .ok a m) :
    (act >>= f) s = f a m := by
  change EStateM.bind act f s = _
  simp only [EStateM.bind, first]

theorem bind_of_error {act : EStateM ε σ α} {next : α → EStateM ε σ β} {s m : σ} {fault : ε}
    (first : act s = .error fault m) : (act >>= next) s = .error fault m := by
  change EStateM.bind act next s = _
  simp only [EStateM.bind, first]

theorem bind_ok {act : EStateM ε σ α} {next : α → EStateM ε σ β} {s t : σ} {b : β} :
    (act >>= next) s = .ok b t ↔ ∃ a m, act s = .ok a m ∧ next a m = .ok b t := by
  constructor
  · intro ran
    cases first : act s with
    | ok a m => exact ⟨a, m, rfl, by rw [← ran, bind_of_ok first]⟩
    | error fault m => rw [bind_of_error first] at ran; cases ran
  · rintro ⟨a, m, first, second⟩
    rw [bind_of_ok first, second]

theorem bind_error {act : EStateM ε σ α} {next : α → EStateM ε σ β} {s t : σ} {fault : ε} :
    (act >>= next) s = .error fault t ↔
      act s = .error fault t ∨ ∃ a m, act s = .ok a m ∧ next a m = .error fault t := by
  cases first : act s with
  | ok a m =>
    rw [bind_of_ok first]
    constructor
    · intro ran
      exact .inr ⟨a, m, rfl, ran⟩
    · rintro (stopped | ⟨_, _, same, ran⟩)
      · cases stopped
      · cases same
        exact ran
  | error other m =>
    rw [bind_of_error first]
    simp

theorem bind_congr {act other : Act σ α} {next : α → Act σ β} {s : σ} (same : act s = other s) :
    (act >>= next) s = (other >>= next) s := by
  change EStateM.bind act next s = EStateM.bind other next s
  simp only [EStateM.bind, same]

@[simp] theorem bind_get (next : σ → EStateM ε σ β) (s : σ) : (get >>= next) s = next s s := rfl

theorem within_of_ok {view : τ → σ} {replace : σ → τ → τ} {act : Act σ α} {s : τ} {m : σ} {a : α}
    (inner : act (view s) = .ok a m) : within view replace act s = .ok a (replace m s) := by
  simp only [within, inner]

theorem within_ok {view : τ → σ} {replace : σ → τ → τ} {act : Act σ α} {s t : τ} {a : α} :
    within view replace act s = .ok a t ↔ ∃ m, act (view s) = .ok a m ∧ t = replace m s := by
  constructor
  · intro ran
    cases inner : act (view s) with
    | ok b m =>
      rw [within_of_ok inner] at ran
      cases ran
      exact ⟨m, rfl, rfl⟩
    | error fault m => simp only [within, inner] at ran; cases ran
  · rintro ⟨m, inner, rfl⟩
    exact within_of_ok inner

theorem within_of_error {view : τ → σ} {replace : σ → τ → τ} {act : Act σ α} {s : τ} {m : σ} {fault : Fault}
    (inner : act (view s) = .error fault m) : within view replace act s = .error fault (replace m s) := by
  simp only [within, inner]

theorem first_of_error {act : Act σ α} {s m : σ} {t : τ} {fault : Fault} (inner : act s = .error fault m) :
    first act (s, t) = .error fault (m, t) :=
  within_of_error inner

theorem within_error {view : τ → σ} {replace : σ → τ → τ} {act : Act σ α} {s t : τ} {fault : Fault} :
    within view replace act s = .error fault t ↔ ∃ m, act (view s) = .error fault m ∧ t = replace m s := by
  constructor
  · intro stopped
    cases inner : act (view s) with
    | ok a m => rw [within_of_ok inner] at stopped; cases stopped
    | error other m =>
      rw [within_of_error inner] at stopped
      cases stopped
      exact ⟨m, rfl, rfl⟩
  · rintro ⟨m, inner, rfl⟩
    exact within_of_error inner

theorem first_of_ok {act : Act σ α} {s m : σ} {t : τ} {a : α} (inner : act s = .ok a m) :
    first act (s, t) = .ok a (m, t) :=
  within_of_ok inner

theorem second_of_ok {act : Act τ α} {s : σ} {t m : τ} {a : α} (inner : act t = .ok a m) :
    second act (s, t) = .ok a (s, m) :=
  within_of_ok inner

theorem first_bind (act : Act σ α) (next : α → Act σ β) :
    (first (act >>= next) : Act (σ × τ) β) = first act >>= fun a => first (next a) := by
  funext s
  cases ran : act s.1 with
  | ok a m =>
    rw [bind_of_ok (first_of_ok ran), first, within, bind_of_ok ran]
    rfl
  | error fault m => rw [bind_of_error (first_of_error ran), first_of_error (bind_of_error ran)]

theorem final_bind_pure (act : EStateM ε σ α) (f : α → β) (s : σ) :
    final ((act >>= fun a => pure (f a)) s) = final (act s) := by
  cases ran : act s with
  | ok a m =>
    rw [bind_of_ok ran]
    rfl
  | error fault m =>
    rw [bind_of_error ran]
    rfl

/-- What is seen of the state stays the same, however the action ends. -/
def Keeps {γ : Type} (view : σ → γ) (act : EStateM ε σ α) : Prop := ∀ s, view (final (act s)) = view s

namespace Keeps

variable {γ δ : Type} {view : σ → γ}

theorem pure (a : α) : Keeps view (pure a : EStateM ε σ α) := fun _ => rfl

theorem throw (fault : ε) : Keeps view (throw fault : EStateM ε σ α) := fun _ => rfl

theorem of_ok {act : EStateM ε σ α} (keeps : Keeps view act) {s t : σ} {a : α} (ran : act s = .ok a t) :
    view t = view s := by
  have same := keeps s
  rw [ran] at same
  exact same

theorem of_error {act : EStateM ε σ α} (keeps : Keeps view act) {s t : σ} {fault : ε} (ran : act s = .error fault t) :
    view t = view s := by
  have same := keeps s
  rw [ran] at same
  exact same

theorem final_bind {act : EStateM ε σ α} {next : α → EStateM ε σ β} (second : ∀ a, Keeps view (next a)) (s : σ) :
    view (final ((act >>= next) s)) = view (final (act s)) := by
  cases ran : act s with
  | ok a m =>
    rw [bind_of_ok ran]
    exact second a m
  | error fault m =>
    rw [bind_of_error ran]
    rfl

theorem bind {act : EStateM ε σ α} {next : α → EStateM ε σ β} (first : Keeps view act)
    (second : ∀ a, Keeps view (next a)) : Keeps view (act >>= next) :=
  fun s => (final_bind second s).trans (first s)

theorem get_bind {next : σ → EStateM ε σ β} (each : ∀ s, Keeps view (next s)) : Keeps view (get >>= next) :=
  fun s => each s s

theorem within {view : τ → σ} {replace : σ → τ → τ} {act : Act σ α} {seen : τ → γ}
    (same : ∀ part s, seen (replace part s) = seen s) : Keeps seen (within view replace act) := by
  intro s
  unfold Act.within
  cases act (view s) with
  | ok a part => exact same part s
  | error fault part => exact same part s

theorem first {act : Act σ α} : Keeps Prod.snd (first act : Act (σ × τ) α) := within fun _ _ => rfl

theorem second {view : τ → γ} {act : Act τ α} (keeps : Keeps view act) :
    Keeps (fun pair => view pair.2) (second act : Act (σ × τ) α) := by
  rintro ⟨s, t⟩
  have same := keeps t
  unfold Act.second Act.within
  dsimp only
  cases ran : act t with
  | ok a m =>
    rw [ran] at same
    exact same
  | error fault m =>
    rw [ran] at same
    exact same

theorem through {act : EStateM ε σ α} (keeps : Keeps view act) (f : γ → δ) : Keeps (fun s => f (view s)) act :=
  fun s => congrArg f (keeps s)

end Keeps

/-- A property of the state that holds before the action holds after it, however it ends. -/
def Upholds (holds : σ → Prop) (act : EStateM ε σ α) : Prop := ∀ s, holds s → holds (final (act s))

namespace Upholds

variable {γ : Type} {holds : σ → Prop} {view : σ → γ}

theorem of_keeps {holds : γ → Prop} {act : EStateM ε σ α} (keeps : Keeps view act) :
    Upholds (fun s => holds (view s)) act := by
  intro s now
  rw [keeps s]
  exact now

theorem bind {act : EStateM ε σ α} {next : α → EStateM ε σ β} (first : Upholds holds act)
    (second : ∀ a, Upholds holds (next a)) : Upholds holds (act >>= next) := by
  intro s now
  have here := first s now
  cases ran : act s with
  | ok a m =>
    rw [ran] at here
    rw [bind_of_ok ran]
    exact second a m here
  | error fault m =>
    rw [ran] at here
    rw [bind_of_error ran]
    exact here

theorem get_bind {next : σ → EStateM ε σ β} (each : ∀ s, Upholds holds (next s)) : Upholds holds (get >>= next) :=
  fun s now => each s s now

end Upholds

end GameHost.Act
