import Deferral.Proofs.Run.Requests

/-!
# The places of what is asked

Which continuation a pop gives back is said by the places of the requests, as the same continuation
may be pushed more than once: every push is numbered with its place. The stack does not look at what
it keeps, so numbered continuations are given back as the others are. A push is outstanding while no
pop has given back its number, and the next pop gives back the outstanding one with the largest
number.

With the numbers that a stack keeps this is all that a caller can see, and it is the same whatever
room was taken at the start, if that much room can be asked for.
-/

namespace Deferral.Pending

open History

variable {κ : Type} {requests : List (Request κ)} {request : Request κ}

/-- The same request with the place at which it is made. -/
def Request.numbered (place : Nat) : Request κ → Request (Nat × κ)
  | push continuation => push (place, continuation)
  | pop => pop

/-- The same requests, each with its place. -/
def numbered (requests : List (Request κ)) : List (Request (Nat × κ)) :=
  requests.mapIdx Request.numbered

theorem numbered_concat (requests : List (Request κ)) (request : Request κ) :
    numbered (requests ++ [request]) = numbered requests ++ [request.numbered requests.length] := by
  simp [numbered]

/-- Two stacks that keep and give back the same continuations, which have numbers in one of them. -/
structure SameContinuations (numbers : History (Nat × κ)) (plain : History κ) : Prop where
  waiting : numbers.stack.waiting.map Prod.snd = plain.stack.waiting
  givenBack : numbers.givenBack.map Prod.snd = plain.givenBack

theorem SameContinuations.respond {numbers : History (Nat × κ)} {plain : History κ}
    (same : SameContinuations numbers plain) (place : Nat) (request : Request κ) :
    SameContinuations (numbers.respond (request.numbered place)) (plain.respond request) := by
  cases request with
  | push continuation =>
      constructor
      · simp [Request.numbered, same.waiting]
      · simp [Request.numbered, same.givenBack]
  | pop =>
      constructor
      · simp [Request.numbered, ← same.waiting]
      · simp [Request.numbered, ← same.waiting, same.givenBack, ← Option.toList_map]

theorem sameContinuations (requests : List (Request κ)) :
    SameContinuations (ofRequests (numbered requests)) (ofRequests requests) := by
  induction requests using List.reverseRecOn with
  | nil => exact ⟨rfl, rfl⟩
  | append_singleton requests request ih =>
      rw [numbered_concat, ofRequests_concat, ofRequests_concat]
      exact ih.respond requests.length request

/-- The places of the pushes whose continuations are not among those given back. -/
def outstanding (requests : List (Request κ)) (givenBack : List (Nat × κ)) : Set Nat :=
  {place | (∃ continuation, requests[place]? = some (.push continuation)) ∧
    ∀ continuation, (place, continuation) ∉ givenBack}

/-- What waits are the continuations that are outstanding, the later ones above the earlier ones. -/
structure KeepsPlaces (requests : List (Request κ)) (waiting givenBack : List (Nat × κ)) :
    Prop where
  sorted : waiting.Pairwise fun above below => below.1 < above.1
  mem_waiting_iff : ∀ place continuation, (place, continuation) ∈ waiting ↔
    requests[place]? = some (.push continuation) ∧ ∀ other, (place, other) ∉ givenBack
  lt_length : ∀ place continuation, (place, continuation) ∈ givenBack → place < requests.length

theorem getElem?_concat_eq_push_iff {place : Nat} {continuation : κ} :
    (requests ++ [request])[place]? = some (.push continuation) ↔
      requests[place]? = some (.push continuation) ∨
        place = requests.length ∧ request = .push continuation := by
  rcases Nat.lt_trichotomy place requests.length with lt | rfl | gt
  · simp [List.getElem?_append_left lt, lt.ne]
  · simp
  · simp [List.getElem?_append_right gt.le, gt.ne', List.getElem?_eq_none gt.le,
      Nat.sub_ne_zero_of_lt gt]

namespace KeepsPlaces

variable {waiting givenBack rest : List (Nat × κ)}

theorem waiting_lt_length (keeps : KeepsPlaces requests waiting givenBack) {place : Nat}
    {continuation : κ} (waits : (place, continuation) ∈ waiting) : place < requests.length := by
  have pushed := ((keeps.mem_waiting_iff place continuation).mp waits).1
  exact (List.getElem?_eq_some_iff.mp pushed).1

theorem push (keeps : KeepsPlaces requests waiting givenBack) (continuation : κ) :
    KeepsPlaces (requests ++ [.push continuation]) ((requests.length, continuation) :: waiting)
      givenBack where
  sorted := List.pairwise_cons.mpr ⟨fun _ waits => keeps.waiting_lt_length waits, keeps.sorted⟩
  mem_waiting_iff place other := by
    rw [List.mem_cons, keeps.mem_waiting_iff, getElem?_concat_eq_push_iff, Prod.mk.injEq,
      Request.push.injEq]
    constructor
    · rintro (⟨rfl, rfl⟩ | ⟨pushed, kept⟩)
      · exact ⟨.inr ⟨rfl, rfl⟩, fun _ given => (keeps.lt_length _ _ given).ne rfl⟩
      · exact ⟨.inl pushed, kept⟩
    · rintro ⟨pushed | ⟨rfl, rfl⟩, kept⟩
      · exact .inr ⟨pushed, kept⟩
      · exact .inl ⟨rfl, rfl⟩
  lt_length place other given := (keeps.lt_length place other given).trans_le (by simp)

theorem popNothing (keeps : KeepsPlaces requests [] givenBack) :
    KeepsPlaces (requests ++ [.pop]) [] givenBack where
  sorted := .nil
  mem_waiting_iff place other := by
    simpa [getElem?_concat_eq_push_iff] using keeps.mem_waiting_iff place other
  lt_length place other given := (keeps.lt_length place other given).trans_le (by simp)

theorem popLatest {latest : Nat} {continuation : κ}
    (keeps : KeepsPlaces requests ((latest, continuation) :: rest) givenBack) :
    KeepsPlaces (requests ++ [.pop]) rest (givenBack ++ [(latest, continuation)]) where
  sorted := (List.pairwise_cons.mp keeps.sorted).2
  mem_waiting_iff place other := by
    have below_latest := (List.pairwise_cons.mp keeps.sorted).1
    have waits_iff := keeps.mem_waiting_iff place other
    rw [List.mem_cons] at waits_iff
    simp only [getElem?_concat_eq_push_iff, reduceCtorEq, and_false, or_false, List.mem_append,
      List.mem_singleton, not_or, forall_and]
    constructor
    · intro waits
      rcases waits_iff.mp (.inr waits) with ⟨pushed, kept⟩
      refine ⟨pushed, kept, ?_⟩
      rintro _ ⟨⟩
      exact (below_latest _ waits).ne rfl
    · rintro ⟨pushed, kept, earlier⟩
      rcases waits_iff.mpr ⟨pushed, kept⟩ with first | waits
      · exact absurd first (earlier other)
      · exact waits
  lt_length place other given := by
    rw [List.length_append]
    refine Nat.lt_add_right _ ?_
    rcases List.mem_append.mp given with given | given
    · exact keeps.lt_length place other given
    · cases List.mem_singleton.mp given
      exact keeps.waiting_lt_length List.mem_cons_self

theorem mem_outstanding_iff (keeps : KeepsPlaces requests waiting givenBack) {place : Nat} :
    place ∈ outstanding requests givenBack ↔ ∃ continuation, (place, continuation) ∈ waiting := by
  simp only [outstanding, Set.mem_ofPred_eq, keeps.mem_waiting_iff, exists_and_right]

/-- The continuation on top was pushed last among those that are outstanding. -/
theorem head?_eq_some_iff (keeps : KeepsPlaces requests waiting givenBack) {place : Nat}
    {continuation : κ} :
    waiting.head? = some (place, continuation) ↔
      IsGreatest (outstanding requests givenBack) place ∧
        requests[place]? = some (.push continuation) := by
  constructor
  · intro top
    rcases List.head?_eq_some_iff.mp top with ⟨rest, rfl⟩
    have below_top := (List.pairwise_cons.mp keeps.sorted).1
    have waits : (place, continuation) ∈ (place, continuation) :: rest := List.mem_cons_self
    refine ⟨⟨keeps.mem_outstanding_iff.mpr ⟨continuation, waits⟩, ?_⟩,
      ((keeps.mem_waiting_iff place continuation).mp waits).1⟩
    intro earlier earlier_outstanding
    rcases keeps.mem_outstanding_iff.mp earlier_outstanding with ⟨other, waits⟩
    rcases List.mem_cons.mp waits with top | below
    · exact (congrArg Prod.fst top).le
    · exact (below_top _ below).le
  · rintro ⟨⟨⟨_, kept⟩, greatest⟩, pushed⟩
    have waits := (keeps.mem_waiting_iff place continuation).mpr ⟨pushed, kept⟩
    rcases waiting with _ | ⟨⟨latest, first⟩, rest⟩
    · cases waits
    · have le : latest ≤ place :=
        greatest (keeps.mem_outstanding_iff.mpr ⟨first, List.mem_cons_self⟩)
      rcases List.mem_cons.mp waits with top | below
      · rw [List.head?_cons, top]
      · exact absurd ((List.pairwise_cons.mp keeps.sorted).1 _ below) (Nat.not_lt.mpr le)

end KeepsPlaces

theorem keepsPlaces (requests : List (Request κ)) :
    KeepsPlaces requests (ofRequests (numbered requests)).stack.waiting
      (ofRequests (numbered requests)).givenBack := by
  induction requests using List.reverseRecOn with
  | nil => constructor <;> simp [ofRequests, respondAll, numbered, History.givenBack]
  | append_singleton requests request ih =>
      rw [numbered_concat, ofRequests_concat, stack_respond, givenBack_respond]
      cases request with
      | push continuation => simpa [Request.numbered] using ih.push continuation
      | pop =>
          cases waiting_eq : (ofRequests (numbered requests)).stack.waiting with
          | nil => simpa [Request.numbered, waiting_eq] using (waiting_eq ▸ ih).popNothing
          | cons latest rest =>
              simpa [Request.numbered, waiting_eq] using (waiting_eq ▸ ih).popLatest

/-- What a stack answers, as far as it is settled by the requests. -/
structure FollowsRequests (requests : List (Request κ)) : Prop where
  /-- Numbering the continuations makes no difference to what is given back. -/
  givenBack_numbered : (ofRequests (numbered requests)).givenBack.map Prod.snd =
    (ofRequests requests).givenBack
  /-- A pop gives back what was pushed last of all that no pop has given back. -/
  pop_eq_some_iff : ∀ continuation,
    ((ofRequests requests).stack.perform .pop).1 = some continuation ↔
      ∃ place, requests[place]? = some (.push continuation) ∧
        IsGreatest (outstanding requests (ofRequests (numbered requests)).givenBack) place
  pop_eq_none_iff : ((ofRequests requests).stack.perform .pop).1 = none ↔
    requests.countP Request.isPush = (ofRequests requests).givenBack.length
  /-- What was pushed was given back or still waits. -/
  countP_isPush : requests.countP Request.isPush =
    (ofRequests requests).givenBack.length + (ofRequests requests).stack.depth
  peak_isGreatest : IsGreatest (depthsOf requests) (ofRequests requests).stack.peak
  peak_mono : ∀ earlier, earlier <+: requests →
    (ofRequests earlier).stack.peak ≤ (ofRequests requests).stack.peak
  peak_raised : ∀ request, ReachesMaximum requests request →
    (ofRequests (requests ++ [request])).stack.peak =
      (ofRequests requests).stack.peak + 1
  peak_kept : ∀ request, ¬ReachesMaximum requests request →
    (ofRequests (requests ++ [request])).stack.peak =
      (ofRequests requests).stack.peak

theorem ofRequests_follows (requests : List (Request κ)) : FollowsRequests requests where
  givenBack_numbered := (sameContinuations requests).givenBack
  pop_eq_some_iff continuation := by
    rw [given_perform_pop, ← (sameContinuations requests).waiting, List.head?_map]
    simp [(keepsPlaces requests).head?_eq_some_iff, and_comm]
  pop_eq_none_iff := by
    rw [given_perform_pop, List.head?_eq_none_iff, ← List.length_eq_zero_iff, ← depth_ofRequests,
      countP_isPush requests]
    omega
  countP_isPush := countP_isPush requests
  peak_isGreatest := peak_isGreatest requests
  peak_mono earlier early := by
    refine (peak_isGreatest earlier).mono (peak_isGreatest requests) ?_
    rintro depth ⟨first, first_early, reached⟩
    exact ⟨first, first_early.trans early, reached⟩
  peak_raised _ := peak_of_reachesMaximum
  peak_kept _ := peak_of_not_reachesMaximum

example :
    (ofRequests (numbered [.push "a", .push "a", .pop, .push "b", .pop, .pop, .pop])).givenBack =
      [(1, "a"), (3, "b"), (0, "a")] := rfl

/-- A stack answers every sequence of requests as a list with a mark at its largest length, and in
the same way whatever room was taken for it. Where so much room cannot be asked for, no stack is
made. -/
theorem follows_requests {σ : Type} (bytes capacity : Nat) (requests : List (Request κ))
    (before : σ) :
    (bytes * capacity ≤ mostBytes →
      provided bytes capacity requests before = some (.ok (ofRequests requests), before)) ∧
    (mostBytes < bytes * capacity →
      provided bytes capacity requests before =
        some (.error (.text "capacity overflow"), before)) ∧
    FollowsRequests requests := by
  refine ⟨fun le => ?_, fun lt => ?_, ofRequests_follows requests⟩
  · rw [provided, withCapacity_of_le le, pure_bind]
    rfl
  · rw [provided, withCapacity_of_lt lt]
    rfl

/-- Room for `2 ^ 62` continuations of 16 bytes cannot be asked for, so that a pop is not answered
as it is without such room. -/
theorem huge_capacity_makes_no_stack :
    (provided 16 0 [.pop] : Call Unit (History Nat)) () =
      some (.ok ⟨[⟨none, 0, 0⟩], empty⟩, ()) ∧
    (provided 16 4611686018427387904 [.pop] : Call Unit (History Nat)) () =
      some (.error (.text "capacity overflow"), ()) :=
  ⟨rfl, rfl⟩

end Deferral.Pending
