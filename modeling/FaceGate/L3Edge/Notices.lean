import FaceGate.L3Edge.Actuations

/-!
# What an iteration hands over

An iteration of the recognition loop calls `try_publish_or_enqueue` once at most: for the event of
its actuation, or for a fault of the embedder (`notices_iterate`, `turn_cases`).
-/
namespace FaceGate.L3.Notices

open Core FaceGate.L1.Domain FaceGate.L3.MainLoop FaceGate.L3.Actuations

variable {K F D : Type}

def notice? : Effect K → Option (Notice K)
  | .publish n _ => some n
  | _ => none

/-- The messages handed to the publisher. -/
def notices (l : List (Effect K)) : List (Notice K) := l.filterMap notice?

def eventOf : Notice K → Option (AccessEvent K)
  | .event e => some e
  | .fault .. => none

theorem notices_append (l m : List (Effect K)) : notices (l ++ m) = notices l ++ notices m :=
  List.filterMap_append

theorem events_eq (l : List (Effect K)) : events l = (notices l).filterMap eventOf := by
  unfold events notices
  rw [List.filterMap_filterMap]
  refine List.filterMap_congr fun x _ => ?_
  rcases x with - | - | - | - | - | - | ⟨_ | _, _⟩ | - <;> rfl

theorem notices_record (p : Pipeline K) (sample : CycleSample) :
    notices (record p sample) = [] := by
  unfold record
  split <;> rfl

theorem notices_tryPublishOrEnqueue (c : Cycle K F D) (n : Notice K) :
    notices (tryPublishOrEnqueue c n) = [n] := by
  unfold tryPublishOrEnqueue
  split <;> rfl

/-- A stage that ends the iteration has handed over one message at most. -/
def Sparing {α : Type} : Stage K α → Prop
  | .error out => (notices out.2).length ≤ 1
  | .ok _ => True

theorem Sparing.bind {α β : Type} {x : Stage K α} {f : α → Stage K β} (hx : Sparing x)
    (hf : ∀ a, Sparing (f a)) : Sparing (x >>= f) := by
  cases x with
  | error out => exact hx
  | ok a => exact hf a

theorem sparing_block (s : LoopState) (c : Cycle K F D) : Sparing (blockGate (K := K) s c) := by
  unfold blockGate
  split
  · exact Nat.zero_le 1
  · trivial

theorem sparing_capture (s : LoopState) (c : Cycle K F D) : Sparing (captureStage s c) := by
  unfold captureStage
  split
  · exact Nat.zero_le 1
  · trivial

theorem sparing_detect (p : Pipeline K) (s : LoopState) (c : Cycle K F D) (frame : F)
    (sample : CycleSample) : Sparing (detectStage p s c frame sample) := by
  unfold detectStage
  dsimp only
  split
  · rw [Sparing, notices_append, notices_record]
    exact Nat.zero_le 1
  · trivial

theorem sparing_stabilization (p : Pipeline K) (s : LoopState) (c : Cycle K F D)
    (sample : CycleSample) : Sparing (stabilizationGate p s c sample) := by
  unfold stabilizationGate
  dsimp only
  split
  · rw [Sparing, notices_append, notices_record]
    exact Nat.zero_le 1
  · trivial

theorem sparing_embed (p : Pipeline K) (s : LoopState) (c : Cycle K F D) (frame : F) (detection : D)
    (sample : CycleSample) : Sparing (embedStage p s c frame detection sample) := by
  unfold embedStage
  dsimp only
  split
  · rw [Sparing, notices_append, notices_append, notices_record, notices_tryPublishOrEnqueue]
    exact Nat.le_refl 1
  · trivial

theorem sparing_toMatcher (p : Pipeline K) (s : LoopState) (c : Cycle K F D) :
    Sparing (toMatcher p s c) := by
  refine Sparing.bind ?_ fun a => (sparing_embed _ _ _ _ _ _).bind fun _ => trivial
  refine (sparing_block s c).bind fun _ => ?_
  refine (sparing_capture s c).bind fun a => ?_
  refine (sparing_detect _ _ _ _ _).bind fun b => ?_
  exact (sparing_stabilization _ _ _ _).bind fun _ => trivial

theorem notices_decideStage (p : Pipeline K) (s : LoopState) (c : Cycle K F D)
    (sample : CycleSample) (m : MatchResult K) :
    (notices (decideStage p s c sample m).2).length ≤ 1 := by
  have hcalls (s : LoopState) : notices (decideBranch p s c m).2.1 = [] := by
    unfold decideBranch
    cases m <;> dsimp only <;> split <;> rfl
  have hfinish (o : Option (AccessEvent K)) :
      (notices (finish p c sample o)).length ≤ 1 := by
    cases o with
    | none =>
      rw [finish, notices_record]
      exact Nat.zero_le 1
    | some e =>
      rw [finish, notices_append, notices_record, notices_tryPublishOrEnqueue]
      exact Nat.le_refl 1
  unfold decideStage
  dsimp only
  rw [notices_append, hcalls]
  exact hfinish _

section Handed
variable [LinearOrder K] [BoundedOrder K] [FloatArith K]

theorem notices_iterate (p : Pipeline K) (s : LoopState) (c : Cycle K F D) :
    (notices (iterate p s c).2).length ≤ 1 := by
  have h := sparing_toMatcher p s c
  unfold iterate
  cases ht : toMatcher p s c with
  | error out =>
    rw [ht] at h
    exact h
  | ok r => exact notices_decideStage ..

/-- The message of an iteration. -/
def handed (p : Pipeline K) (s : LoopState) (c : Cycle K F D) : Option (Notice K) :=
  (notices (iterate p s c).2).head?

/-- There is no other. -/
theorem notices_eq (p : Pipeline K) (s : LoopState) (c : Cycle K F D) :
    notices (iterate p s c).2 = (handed p s c).toList := by
  have h := notices_iterate p s c
  unfold handed
  match notices (iterate p s c).2, h with
  | [], _ => rfl
  | [n], _ => rfl

theorem events_handed (p : Pipeline K) (s : LoopState) (c : Cycle K F D) :
    events (iterate p s c).2 = ((handed p s c).bind eventOf).toList := by
  rw [events_eq, notices_eq]
  rcases handed p s c with _ | _ | _ <;> rfl

/-- An iteration leaves the devices alone and has no event, or acts and hands over the event
of the actuation. -/
theorem turn_cases (p : Pipeline K) (s : LoopState) (c : Cycle K F D) :
    (deviceCalls (iterate p s c).2 = [] ∧
        Turn.actuation? ⟨verdict p s c, (iterate p s c).2⟩ = none ∧
        (handed p s c).bind eventOf = none) ∨
      ∃ a : Actuation K, verdict p s c = some a.verdict ∧
        deviceCalls (iterate p s c).2 = a.calls p ∧
        Turn.actuation? ⟨verdict p s c, (iterate p s c).2⟩ = some a ∧
        handed p s c = some (.event (a.event c.wall)) := by
  have hevents := events_handed p s c
  rcases iterate_cases p s c with ⟨hq, -⟩ | ⟨a, hv, ha⟩
  · left
    rw [hq.events] at hevents
    refine ⟨hq.devices, ?_, Option.toList_eq_nil_iff.mp hevents.symm⟩
    unfold Turn.actuation?
    rw [hq.devices]
    split <;> simp_all
  · right
    refine ⟨a, hv, ha.devices, ?_, ?_⟩
    · unfold Turn.actuation?
      rw [hv, ha.devices]
      cases a <;> rfl
    · rw [ha.events] at hevents
      rcases hn : handed p s c with _ | e | _
      · rw [hn] at hevents
        cases hevents
      · rw [hn] at hevents
        cases hevents
        rfl
      · rw [hn] at hevents
        cases hevents

end Handed

end FaceGate.L3.Notices
