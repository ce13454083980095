import Deferral.Future.Basic
import Mathlib.Logic.Function.Basic

/-!
# Runs side by side

Somebody who holds several futures may poll them in any order and give any of them up at any time. A
schedule is a list of turns: a future is polled, or given up, or something else happens to the world
that all of them share. Each poll goes on with what the poll before left of the same future, and a
future that has ended is gone.

`play` tells what happens, turn by turn. It has no answer when a poll does not return, because then
no further turn is ever taken.
-/

namespace Deferral

/-- What happens in one turn, with futures told apart by `κ`. -/
inductive Turn (κ σ : Type) where
  | poll (which : κ)
  | drop (which : κ)
  | act (step : σ → σ)

/-- What a poll shows. -/
inductive Answer (V : Type) where
  | pending (wake : Wake)
  | ready (value : V)
  | panicked (reason : Panic)
  deriving DecidableEq

/-- The futures that are still held. -/
abbrev Held (κ σ V ρ : Type) := κ → Option (Future σ V ρ)

/-- A turn that was taken. -/
structure Moment (κ σ V : Type) where
  turn : Turn κ σ
  before : σ
  /-- The answer of the future that was polled, if it was still held. -/
  answer? : Option (Answer V)
  after : σ

/-- A poll of some future, with the world before and after it. -/
structure Polled (σ V : Type) where
  before : σ
  answer : Answer V
  after : σ

variable {κ σ V ρ : Type}

/-- What is told of the ending of a poll. -/
def Answer.of : Except Panic (Poll V (Future σ V ρ)) → Answer V
  | .ok (.pending wake _) => .pending wake
  | .ok (.ready value) => .ready value
  | .error reason => .panicked reason

/-- What a poll leaves to be polled again. -/
def Future.left? : Except Panic (Poll V (Future σ V ρ)) → Option (Future σ V ρ)
  | .ok (.pending _ rest) => some rest
  | _ => none

/-- Runs of graphs, none of which was polled yet. -/
def begun (graphs : κ → AsyncGraph σ V ρ) : Held κ σ V ρ := fun which =>
  some (.ofGraph (graphs which))

/-- The future that a turn is about. -/
def Turn.about? : Turn κ σ → Option κ
  | .poll which => some which
  | .drop which => some which
  | .act _ => none

section Polls

variable [DecidableEq κ]

/-- The poll that a moment is for a future. -/
def Moment.polled? (which : κ) (moment : Moment κ σ V) : Option (Polled σ V) :=
  match moment.turn with
  | .poll other =>
    if other = which then moment.answer?.map (Polled.mk moment.before · moment.after) else none
  | _ => none

/-- The polls of one future, in their order. -/
def pollsOf (which : κ) (moments : List (Moment κ σ V)) : List (Polled σ V) :=
  moments.filterMap (Moment.polled? which)

theorem pollsOf_cons (which : κ) (moment : Moment κ σ V) (moments : List (Moment κ σ V)) :
    pollsOf which (moment :: moments) =
      (moment.polled? which).toList ++ pollsOf which moments := by
  rcases polled_eq : moment.polled? which with _ | polled
  · exact List.filterMap_cons_none polled_eq
  · exact List.filterMap_cons_some polled_eq

theorem pollsOf_append (which : κ) (first second : List (Moment κ σ V)) :
    pollsOf which (first ++ second) = pollsOf which first ++ pollsOf which second :=
  List.filterMap_append

end Polls

section Play

variable [DecidableEq κ] [Host σ V] [Equations ρ σ (Future σ V ρ) V]

/-- Take one turn: poll a future that is held, if there is one, or drop it. -/
def Turn.take (held : Held κ σ V ρ) (world : σ) (turn : Turn κ σ) :
    Option (Moment κ σ V × Held κ σ V ρ) :=
  match turn with
  | .poll which =>
    match held which with
    | none => some (⟨turn, world, none, world⟩, held)
    | some future => (future.poll world).map fun (ending, after) =>
      (⟨turn, world, some (.of ending), after⟩,
        Function.update held which (Future.left? ending))
  | .drop which => some (⟨turn, world, none, world⟩, Function.update held which none)
  | .act step => some (⟨turn, world, none, step world⟩, held)

/-- Take one turn after the other. -/
def play : List (Turn κ σ) → Held κ σ V ρ → σ → Option (List (Moment κ σ V) × Held κ σ V ρ × σ)
  | [], held, world => some ([], held, world)
  | turn :: turns, held, world =>
    (turn.take held world).bind fun (moment, held) =>
      (play turns held moment.after).map fun (moments, rest) => (moment :: moments, rest)

/-- Everything that can happen in one turn. -/
inductive Takes (held : Held κ σ V ρ) (world : σ) :
    Turn κ σ → Moment κ σ V → Held κ σ V ρ → Prop
  | gone {which : κ} (held_eq : held which = none) :
      Takes held world (.poll which) ⟨.poll which, world, none, world⟩ held
  | polls {which : κ} {future : Future σ V ρ} {ending : Except Panic (Poll V (Future σ V ρ))}
      {after : σ} (held_eq : held which = some future)
      (polled : future.poll world = some (ending, after)) :
      Takes held world (.poll which) ⟨.poll which, world, some (.of ending), after⟩
        (Function.update held which (Future.left? ending))
  | drops (which : κ) :
      Takes held world (.drop which) ⟨.drop which, world, none, world⟩
        (Function.update held which none)
  | acts (step : σ → σ) :
      Takes held world (.act step) ⟨.act step, world, none, step world⟩ held

theorem takes_iff {held next : Held κ σ V ρ} {world : σ} {turn : Turn κ σ} {moment : Moment κ σ V} :
    turn.take held world = some (moment, next) ↔ Takes held world turn moment next := by
  constructor
  · intro taken
    cases turn with
    | poll which =>
        rcases held_eq : held which with _ | future
        · simp only [Turn.take, held_eq, Option.some.injEq, Prod.mk.injEq] at taken
          rcases taken with ⟨rfl, rfl⟩
          exact .gone held_eq
        · simp only [Turn.take, held_eq, Option.map_eq_some_iff, Prod.mk.injEq] at taken
          rcases taken with ⟨⟨ending, after⟩, polled, rfl, rfl⟩
          exact .polls held_eq polled
    | drop which =>
        cases taken
        exact .drops which
    | act step =>
        cases taken
        exact .acts step
  · intro takes
    cases takes with
    | gone held_eq => simp only [Turn.take, held_eq]
    | polls held_eq polled => simp only [Turn.take, held_eq, polled, Option.map_some]
    | drops => rfl
    | acts => rfl

/-- All the turns are taken, one after the other. -/
inductive Plays : List (Turn κ σ) → Held κ σ V ρ → σ → List (Moment κ σ V) → Held κ σ V ρ → σ → Prop
  | done (held : Held κ σ V ρ) (world : σ) : Plays [] held world [] held world
  | turn {turn : Turn κ σ} {turns : List (Turn κ σ)} {held next last : Held κ σ V ρ}
      {before after : σ} {moment : Moment κ σ V} {moments : List (Moment κ σ V)}
      (takes : Takes held before turn moment next)
      (rest : Plays turns next moment.after moments last after) :
      Plays (turn :: turns) held before (moment :: moments) last after

theorem plays_iff {turns : List (Turn κ σ)} {held last : Held κ σ V ρ} {before after : σ}
    {moments : List (Moment κ σ V)} :
    play turns held before = some (moments, last, after) ↔
      Plays turns held before moments last after := by
  constructor
  · intro played
    induction turns generalizing held before moments with
    | nil =>
        cases played
        exact .done _ _
    | cons turn turns ih =>
        rcases Option.bind_eq_some_iff.mp played with ⟨⟨moment, next⟩, taken, played⟩
        rcases Option.map_eq_some_iff.mp played with ⟨⟨rest, ended⟩, later, eq⟩
        cases eq
        exact .turn (takes_iff.mp taken) (ih later)
  · intro plays
    induction plays with
    | done => rfl
    | turn takes _ ih =>
        simp only [play, takes_iff.mpr takes, Option.bind_some, ih, Option.map_some]

theorem play_append (first second : List (Turn κ σ)) (held : Held κ σ V ρ) (world : σ) :
    play (first ++ second) held world = (play first held world).bind fun (moments, held, world) =>
      (play second held world).map fun (more, rest) => (moments ++ more, rest) := by
  induction first generalizing held world with
  | nil => simp [play]
  | cons turn turns ih =>
      rcases taken : turn.take held world with _ | ⟨moment, next⟩
      · simp [play, taken]
      · simp only [List.cons_append, play, taken, Option.bind_some, ih]
        rcases play turns next moment.after with _ | ⟨moments, last, ended⟩
        · rfl
        · simp [Function.comp_def]

end Play

end Deferral
