import Deferral.Proofs.Run.Depth
import Mathlib.Data.List.Induction

/-!
# What is asked of a stack

A stack is asked to push and to pop, again and again, and each time a caller sees what is given
back, how many continuations wait and where the mark stands. The numbers are settled by the requests
so far. What was pushed was given back or waits; the mark is the largest number of continuations
that waited after any of the requests, and a push raises it by one when more wait than ever before.
-/

namespace Deferral.Pending

variable {κ : Type}

/-- What is asked of a stack. -/
inductive Request (κ : Type) where
  | push (continuation : κ)
  | pop

/-- The request is a push. -/
def Request.isPush : Request κ → Bool
  | push _ => true
  | pop => false

/-- What is given back, if anything, and the stack that is left. -/
def perform (pending : Pending κ) : Request κ → Option κ × Pending κ
  | .push continuation => (none, pending.push continuation)
  | .pop =>
    match pending.pop? with
    | none => (none, pending)
    | some (continuation, rest) => (some continuation, rest)

section Perform

variable (pending : Pending κ)

@[simp]
theorem perform_push (continuation : κ) :
    pending.perform (.push continuation) = (none, pending.push continuation) := rfl

@[simp]
theorem given_perform_pop : (pending.perform .pop).1 = pending.waiting.head? := by
  rcases pending with ⟨_ | ⟨first, waiting⟩, depth, peak⟩ <;> rfl

@[simp]
theorem waiting_perform_pop : (pending.perform .pop).2.waiting = pending.waiting.tail := by
  rcases pending with ⟨_ | ⟨first, waiting⟩, depth, peak⟩ <;> rfl

@[simp]
theorem peak_perform_pop : (pending.perform .pop).2.peak = pending.peak := by
  rcases pending with ⟨_ | ⟨first, waiting⟩, depth, peak⟩ <;> rfl

variable {pending}

theorem Sound.perform (sound : pending.Sound) (request : Request κ) :
    (pending.perform request).2.Sound := by
  cases request with
  | push continuation => exact sound.push continuation
  | pop =>
      unfold Pending.perform
      cases popped : pending.pop? with
      | none => exact sound
      | some pair => exact sound.pop? popped

/-- The mark is raised to what waits after the request. -/
theorem Sound.peak_perform (sound : pending.Sound) (request : Request κ) :
    (pending.perform request).2.peak = max pending.peak (pending.perform request).2.depth := by
  cases request with
  | push continuation => rfl
  | pop =>
      have counted : (pending.perform .pop).2.depth = (pending.perform .pop).2.waiting.length :=
        (sound.perform .pop).counted
      have le := (sound.perform .pop).length_le_peak
      rw [peak_perform_pop] at le ⊢
      omega

end Perform

/-- What a caller sees of a request: the continuation that is given back, if any, and then the
number of those that wait and the mark. -/
structure Answer (κ : Type) where
  given : Option κ
  depth : Nat
  peak : Nat

/-- The answers so far, and the stack now. -/
structure History (κ : Type) where
  answers : List (Answer κ)
  stack : Pending κ

namespace History

/-- Carry out one more request and remember the answer. -/
def respond (history : History κ) (request : Request κ) : History κ :=
  let (given, stack) := history.stack.perform request
  ⟨history.answers ++ [⟨given, stack.depth, stack.peak⟩], stack⟩

/-- Make requests of a stack, one after the other. -/
def respondAll (stack : Pending κ) (requests : List (Request κ)) : History κ :=
  requests.foldl respond ⟨[], stack⟩

/-- Make requests of an empty stack. -/
def ofRequests (requests : List (Request κ)) : History κ :=
  respondAll empty requests

/-- Make requests of a stack for which room is taken first. -/
def provided {σ : Type} (bytes capacity : Nat) (requests : List (Request κ)) :
    Call σ (History κ) := do
  return respondAll (← withCapacity bytes capacity) requests

/-- The continuations that pops have given back. -/
def givenBack (history : History κ) : List κ :=
  history.answers.filterMap Answer.given

@[simp]
theorem stack_respond (history : History κ) (request : Request κ) :
    (history.respond request).stack = (history.stack.perform request).2 := rfl

@[simp]
theorem givenBack_respond (history : History κ) (request : Request κ) :
    (history.respond request).givenBack =
      history.givenBack ++ (history.stack.perform request).1.toList := by
  simp only [givenBack, respond, List.filterMap_append]
  cases (history.stack.perform request).1 <;> rfl

@[simp]
theorem ofRequests_concat (requests : List (Request κ)) (request : Request κ) :
    ofRequests (requests ++ [request]) = (ofRequests requests).respond request := by
  simp [ofRequests, respondAll]

end History

open History

variable {requests : List (Request κ)} {request : Request κ}

theorem sound_ofRequests (requests : List (Request κ)) :
    (ofRequests requests).stack.Sound := by
  induction requests using List.reverseRecOn with
  | nil => exact sound_empty
  | append_singleton requests request ih =>
      rw [ofRequests_concat, stack_respond]
      exact ih.perform request

theorem depth_ofRequests (requests : List (Request κ)) :
    (ofRequests requests).stack.depth =
      (ofRequests requests).stack.waiting.length :=
  (sound_ofRequests requests).counted

/-- What was pushed was given back or still waits. -/
theorem countP_isPush (requests : List (Request κ)) :
    requests.countP Request.isPush =
      (ofRequests requests).givenBack.length + (ofRequests requests).stack.depth := by
  rw [depth_ofRequests]
  induction requests using List.reverseRecOn with
  | nil => rfl
  | append_singleton requests request ih =>
      cases request with
      | push continuation => simp [ih, Request.isPush, Nat.add_assoc]
      | pop =>
          cases waiting_eq : (ofRequests requests).stack.waiting with
          | nil => simp [ih, Request.isPush, waiting_eq]
          | cons first waiting =>
              simp [ih, Request.isPush, waiting_eq, Nat.add_assoc, Nat.add_comm 1]

/-- The numbers of continuations that waited after no request, after the first, and so on. -/
def depthsOf (requests : List (Request κ)) : Set Nat :=
  {depth | ∃ earlier, earlier <+: requests ∧ (ofRequests earlier).stack.depth = depth}

theorem depthsOf_concat (requests : List (Request κ)) (request : Request κ) :
    depthsOf (requests ++ [request]) =
      insert (ofRequests (requests ++ [request])).stack.depth (depthsOf requests) := by
  ext depth
  simp only [depthsOf, List.prefix_concat_iff, Set.mem_ofPred_eq, Set.mem_insert_iff, or_and_right,
    exists_or, exists_eq_left, eq_comm]

theorem peak_isGreatest (requests : List (Request κ)) :
    IsGreatest (depthsOf requests) (ofRequests requests).stack.peak := by
  induction requests using List.reverseRecOn with
  | nil => simp [depthsOf, ofRequests, respondAll]
  | append_singleton requests request ih =>
      rw [depthsOf_concat, ofRequests_concat, stack_respond,
        (sound_ofRequests requests).peak_perform, max_comm]
      exact ih.insert _

/-- A push after which more continuations wait than ever before. -/
def ReachesMaximum (requests : List (Request κ)) (request : Request κ) : Prop :=
  request.isPush ∧ ∀ earlier, earlier <+: requests →
    (ofRequests earlier).stack.depth <
      (ofRequests (requests ++ [request])).stack.depth

theorem peak_of_reachesMaximum (maximum : ReachesMaximum requests request) :
    (ofRequests (requests ++ [request])).stack.peak =
      (ofRequests requests).stack.peak + 1 := by
  rcases maximum with ⟨pushes, deeper⟩
  rcases peak_isGreatest requests with ⟨⟨earlier, early, reached⟩, greatest⟩
  have lt := deeper earlier early
  have le := greatest ⟨requests, List.prefix_rfl, rfl⟩
  cases request with
  | push continuation =>
      simp only [ofRequests_concat, stack_respond, perform_push, depth_push, peak_push] at lt ⊢
      omega
  | pop => cases pushes

theorem peak_of_not_reachesMaximum (not_maximum : ¬ReachesMaximum requests request) :
    (ofRequests (requests ++ [request])).stack.peak =
      (ofRequests requests).stack.peak := by
  cases request with
  | push continuation =>
      rcases peak_isGreatest requests with ⟨_, greatest⟩
      have le : (ofRequests (requests ++ [.push continuation])).stack.depth ≤
          (ofRequests requests).stack.peak := by
        by_contra lt
        apply not_maximum
        refine ⟨rfl, ?_⟩
        intro earlier early
        exact (greatest ⟨earlier, early, rfl⟩).trans_lt (Nat.lt_of_not_le lt)
      simp only [ofRequests_concat, stack_respond, perform_push, depth_push, peak_push] at le ⊢
      omega
  | pop => simp

end Deferral.Pending
