import Sfz.Proofs.Player.Turns

/-! Histories of calls to a player of several regions.

Such a player is filled, finalized and played by calls in any order. What a history comes to is told
from the calls alone: which regions came in before the first call that finalizes the player, and how
many plays came after it.
-/

set_option autoImplicit false

namespace Sfz

namespace Player

structure Entrant where
  zone : Zone
  pitch : Int

/-- The sound of an entrant at a velocity, computed without a table. -/
def Entrant.sound? (entrant : Entrant) (velocity : Int) : Option Sound :=
  if 1 ≤ velocity ∧ velocity ≤ 127 then
    some (entrant.zone.sound { pitch := entrant.pitch, velocity })
  else
    none

inductive Call where
  | add (entrant : Entrant)
  | finalize
  | play (query : Query)

inductive Answer where
  | entered
  | refused (error : PlayerError)
  | finalized (warnings : List Warning)
  | played (sound? : Option Sound)
  deriving DecidableEq

def Call.isFinalize : Call → Bool
  | finalize => true
  | add _ | play _ => false

def Call.isPlay : Call → Bool
  | play _ => true
  | add _ | finalize => false

def closed (calls : List Call) : Bool :=
  calls.any Call.isFinalize

/-- What was added before the player was first finalized. -/
def entrants : List Call → List Entrant
  | [] | .finalize :: _ => []
  | .add entrant :: rest => entrant :: entrants rest
  | .play _ :: rest => entrants rest

def turns : List Call → Nat
  | [] => 0
  | .finalize :: rest => rest.countP Call.isPlay
  | .add _ :: rest | .play _ :: rest => turns rest

theorem closed_append (calls rest : List Call) :
    closed (calls ++ rest) = (closed calls || closed rest) :=
  List.any_append

section Open

variable {calls : List Call} (isOpen : closed calls = false) (rest : List Call)
include isOpen

theorem entrants_append_of_open :
    entrants (calls ++ rest) = entrants calls ++ entrants rest := by
  induction calls with
  | nil => rfl
  | cons first others ih =>
    cases first with
    | add entrant => exact congrArg (entrant :: ·) (ih isOpen)
    | finalize => cases isOpen
    | play query => exact ih isOpen

theorem turns_append_of_open : turns (calls ++ rest) = turns rest := by
  induction calls with
  | nil => rfl
  | cons first others ih =>
    cases first with
    | add entrant => exact ih isOpen
    | finalize => cases isOpen
    | play query => exact ih isOpen

end Open

section Closed

variable {calls : List Call} (isClosed : closed calls = true) (rest : List Call)
include isClosed

theorem entrants_append_of_closed : entrants (calls ++ rest) = entrants calls := by
  induction calls with
  | nil => cases isClosed
  | cons first others ih =>
    cases first with
    | add entrant => exact congrArg (entrant :: ·) (ih isClosed)
    | finalize => rfl
    | play query => exact ih isClosed

theorem turns_append_of_closed :
    turns (calls ++ rest) = turns calls + rest.countP Call.isPlay := by
  induction calls with
  | nil => cases isClosed
  | cons first others ih =>
    cases first with
    | add entrant => exact ih isClosed
    | finalize => exact List.countP_append
    | play query => exact ih isClosed

end Closed

theorem sound?_ofRegion (entrant : Entrant) (velocity : Int) :
    (Voicing.ofRegion entrant.zone.region entrant.pitch entrant.zone.sampleIndex).sound? velocity =
      entrant.sound? velocity := by
  unfold Entrant.sound?
  split
  · next sounds =>
    exact @Voicing.sound?_ofRegion { pitch := entrant.pitch, velocity } sounds entrant.zone
  · next silent => simp [Voicing.sound?, Voicing.gain?, silent]

section Runs

variable {π : Type} (step : π → Call → Answer × π)

def run : π → List Call → π
  | player, [] => player
  | player, call :: rest => run (step player call).2 rest

def answers : π → List Call → List Answer
  | _, [] => []
  | player, call :: rest => (step player call).1 :: answers (step player call).2 rest

variable {step} {told : List Call → π} {answer : List Call → Call → Answer}
  (steps : ∀ before call, step (told before) call = (answer before call, told (before ++ [call])))
include steps

theorem run_told (before calls : List Call) :
    run step (told before) calls = told (before ++ calls) := by
  induction calls generalizing before with
  | nil => rw [List.append_nil]; rfl
  | cons call rest ih =>
    rw [run, steps, ih, List.append_assoc, List.singleton_append]

theorem answers_told (before calls : List Call) :
    answers step (told before) calls =
      calls.mapIdx fun position call => answer (before ++ calls.take position) call := by
  induction calls generalizing before with
  | nil => rfl
  | cons call rest ih =>
    simp only [answers, steps, ih, List.mapIdx_cons, List.take_zero, List.append_nil,
      List.take_succ_cons, List.append_assoc, List.singleton_append]

end Runs

end Player

end Sfz
