import TimeSwitch.Library.Runs

/-! # Stations on a wire

Stations exchange messages over a wire that may lose, repeat and reorder them: a message that was
once put on the wire may arrive at every station that hears it, at any time and any number of
times, or never.  Besides, the foreign messages may arrive at any time.  The states that a station
has had are recorded.

`Spoken` is the property of a message that its sender was once in a state in which it is true;
`spoken_after` keeps it for all messages on the wire if what one action sends is true. -/

/-- Stations with their start, their action on an input and at most one message, which gives a new
state and the messages sent, the messages that a station hears, and the foreign messages. -/
structure Stations (ι σ ρ μ : Type*) where
  start : ι → σ
  act : ι → σ → ρ → Option μ → σ × List μ
  hears : ι → μ → Prop
  foreign : μ → Prop

namespace Stations

variable {ι σ ρ μ : Type*} [DecidableEq ι]

/-- The states of the stations, all messages that were put on the wire, and the states that the
stations have had. -/
structure World (ι σ μ : Type*) where
  state : ι → σ
  wire : List μ
  past : List (ι × σ)

/-- A station acts. -/
structure Action (ι ρ μ : Type*) where
  station : ι
  input : ρ
  message : Option μ

variable (S : Stations ι σ ρ μ)

def init : World ι σ μ := ⟨S.start, [], []⟩

/-- The state and the messages of an action. -/
def outcome (x : World ι σ μ) (e : Action ι ρ μ) : σ × List μ :=
  S.act e.station (x.state e.station) e.input e.message

def after (x : World ι σ μ) (e : Action ι ρ μ) : World ι σ μ :=
  ⟨Function.update x.state e.station (S.outcome x e).1, x.wire ++ (S.outcome x e).2,
    (e.station, x.state e.station) :: x.past⟩

/-- The message of an action is on the wire, or it is foreign. -/
def Arrives (x : World ι σ μ) (e : Action ι ρ μ) : Prop :=
  ∀ m ∈ e.message, S.hears e.station m ∧ (m ∈ x.wire ∨ S.foreign m)

def Step (x : World ι σ μ) (e : Action ι ρ μ) (x' : World ι σ μ) : Prop :=
  S.Arrives x e ∧ x' = S.after x e

section once

variable [DecidableEq μ] [∀ i m, Decidable (S.hears i m)] [∀ m, Decidable (S.foreign m)]

instance (x : World ι σ μ) (e : Action ι ρ μ) : Decidable (S.Arrives x e) := by
  unfold Arrives
  infer_instance

/-- `Step` as a function. -/
def once (x : World ι σ μ) (e : Action ι ρ μ) : Option (World ι σ μ) :=
  if S.Arrives x e then some (S.after x e) else none

theorem step_of_once (x : World ι σ μ) (e : Action ι ρ μ) (x' : World ι σ μ)
    (h : S.once x e = some x') : S.Step x e x' := by
  unfold once at h
  split_ifs at h with ha
  exact ⟨ha, (Option.some.inj h).symm⟩

end once

/-- The station is in this state or has been in it. -/
def World.Reached (x : World ι σ μ) (i : ι) (s : σ) : Prop := s = x.state i ∨ (i, s) ∈ x.past

/-- The sender of the message was in a state in which it is true. -/
def Spoken (Says : ι → σ → μ → Prop) (x : World ι σ μ) (m : μ) : Prop :=
  ∃ i s, x.Reached i s ∧ Says i s m

variable {S} {x x' : World ι σ μ} {e : Action ι ρ μ} {Says : ι → σ → μ → Prop} {m : μ}

theorem after_state_of_ne {i : ι} (h : i ≠ e.station) : (S.after x e).state i = x.state i :=
  Function.update_of_ne h ..

theorem after_state_same : (S.after x e).state e.station = (S.outcome x e).1 :=
  Function.update_self ..

/-- What holds of all stations, and of the acting one afterwards, holds of all afterwards. -/
theorem after_forall {P : σ → Prop} (hx : ∀ i, P (x.state i)) (he : P (S.outcome x e).1) (i : ι) :
    P ((S.after x e).state i) := by
  by_cases hi : i = e.station
  · subst hi
    rw [after_state_same]
    exact he
  · rw [after_state_of_ne hi]
    exact hx i

/-- States that were reached stay reached. -/
theorem Reached.after {i : ι} {s : σ} (h : x.Reached i s) : (S.after x e).Reached i s := by
  rcases h with rfl | h
  · by_cases hi : i = e.station
    · right
      rw [hi]
      exact List.mem_cons_self
    · left
      exact (after_state_of_ne hi).symm
  · exact Or.inr (List.mem_cons_of_mem _ h)

theorem Spoken.after (h : Spoken Says x m) : Spoken Says (S.after x e) m := by
  obtain ⟨i, s, hr, hm⟩ := h
  exact ⟨i, s, Reached.after hr, hm⟩

/-- What an action sends is true in the state before or after it. -/
def Truthful (S : Stations ι σ ρ μ) (Says : ι → σ → μ → Prop) (x : World ι σ μ)
    (e : Action ι ρ μ) : Prop :=
  ∀ m ∈ (S.outcome x e).2,
    Says e.station (x.state e.station) m ∨ Says e.station (S.outcome x e).1 m

/-- A truthful action keeps the wire spoken. -/
theorem spoken_after (hsay : S.Truthful Says x e) (hx : ∀ m ∈ x.wire, Spoken Says x m) :
    ∀ m ∈ (S.after x e).wire, Spoken Says (S.after x e) m := by
  intro m hm
  cases List.mem_append.mp hm with
  | inl hm => exact (hx m hm).after
  | inr hm =>
      cases hsay m hm with
      | inl h => exact ⟨e.station, x.state e.station, Reached.after (Or.inl rfl), h⟩
      | inr h => exact ⟨e.station, (S.outcome x e).1, Or.inl after_state_same.symm, h⟩

end Stations
