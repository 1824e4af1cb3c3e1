import Mathlib.Data.List.Rotate
import Sfz.Proofs.Player.Histories

/-! The rotation of a player that takes its regions in turn.

Whatever calls come between, the plays of a finalized player go round its regions in the order of
their sequence positions. A play that makes no sound takes its turn as well; calls that come too
late and plays that come too early change nothing.
-/

set_option autoImplicit false

namespace Sfz

namespace RoundRobin

open Player

def Entry.ofEntrant (entrant : Entrant) : Entry :=
  .ofRegion entrant.zone.region entrant.pitch entrant.zone.sampleIndex

def step (player : RoundRobin) : Call → Answer × RoundRobin
  | .add entrant =>
    match player.add entrant.zone.region entrant.pitch entrant.zone.sampleIndex with
    | .ok player => (.entered, player)
    | .error error => (.refused error, player)
  | .finalize => (.finalized [], player.finalize)
  | .play query =>
    let (sound?, player) := player.play query
    (.played sound?, player)

def upcoming? (player : RoundRobin) : Option Entry :=
  if player.finalized then player.entries[player.cursor]? else none

theorem play_eq_upcoming? (player : RoundRobin) (query : Query) :
    (player.play query).1 =
      player.upcoming?.bind fun entry => entry.voicing.sound? query.velocity := by
  unfold play upcoming?
  split
  · split
    · next none => rw [none]; rfl
    · next entry some => rw [some]; rfl
  · rfl

/-- The entrants of a history in the order of their turns; those with equal positions keep their
order. -/
def entrantsInTurn (calls : List Call) : List Entrant :=
  (entrants calls).mergeSort fun first second =>
    first.zone.region.seqPosition ≤ second.zone.region.seqPosition

theorem length_entrantsInTurn (calls : List Call) :
    (entrantsInTurn calls).length = (entrants calls).length :=
  List.length_mergeSort _

theorem entrantsInTurn_of_isEmpty {calls : List Call} (nothing : (entrants calls).isEmpty = true) :
    entrantsInTurn calls = [] := by
  rw [entrantsInTurn, List.isEmpty_iff.mp nothing, List.mergeSort_nil]

theorem entrantsInTurn_append_of_closed {calls : List Call} (isClosed : closed calls = true)
    (rest : List Call) : entrantsInTurn (calls ++ rest) = entrantsInTurn calls := by
  rw [entrantsInTurn, entrants_append_of_closed isClosed, entrantsInTurn]

theorem inTurn_entrants (calls : List Call) :
    inTurn ((entrants calls).map Entry.ofEntrant) =
      (entrantsInTurn calls).map Entry.ofEntrant := by
  rw [entrantsInTurn, List.map_mergeSort]
  · rfl
  · intro first _ second _
    rfl

def told (calls : List Call) : RoundRobin :=
  if closed calls then
    atTurn ((entrantsInTurn calls).map Entry.ofEntrant).toArray
      (if (entrants calls).isEmpty then 0 else turns calls)
  else
    { entries := ((entrants calls).map Entry.ofEntrant).toArray }

def answer (before : List Call) : Call → Answer
  | .add _ => if closed before then .refused .alreadyFinalized else .entered
  | .finalize => .finalized []
  | .play query =>
    .played <|
      if closed before then
        (entrantsInTurn before)[turns before % (entrants before).length]?.bind
          fun entrant => entrant.sound? query.velocity
      else
        none

theorem told_nil : told [] = {} :=
  rfl

section Open

variable {before : List Call} (isOpen : closed before = false)
include isOpen

theorem told_of_open :
    told before = { entries := ((entrants before).map Entry.ofEntrant).toArray } := by
  rw [told, isOpen]
  rfl

theorem told_concat_of_open {call : Call} (goesOn : closed [call] = false) :
    told (before ++ [call]) =
      { entries := ((entrants before ++ entrants [call]).map Entry.ofEntrant).toArray } := by
  have stays : closed (before ++ [call]) = false := by rw [closed_append, isOpen, goesOn]; rfl
  rw [told_of_open stays, entrants_append_of_open isOpen]

theorem step_told_of_open (call : Call) :
    step (told before) call = (answer before call, told (before ++ [call])) := by
  cases call with
  | add entrant =>
    rw [told_concat_of_open isOpen rfl, told_of_open isOpen]
    simp [step, answer, isOpen, add, push, entrants, Entry.ofEntrant]
  | finalize =>
    have closes : closed (before ++ [.finalize]) = true := by simp [closed, Call.isFinalize]
    have same : entrants (before ++ [.finalize]) = entrants before := by
      rw [entrants_append_of_open isOpen]
      exact List.append_nil _
    have inOrder : entrantsInTurn (before ++ [.finalize]) = entrantsInTurn before := by
      rw [entrantsInTurn, same, entrantsInTurn]
    have first : turns (before ++ [.finalize]) = 0 := turns_append_of_open isOpen _
    rw [told_of_open isOpen, told, closes, if_pos rfl, first, ite_self, inOrder]
    simp [step, answer, finalize, inTurn_entrants, atTurn]
  | play query =>
    rw [told_concat_of_open isOpen rfl, told_of_open isOpen]
    simp [step, answer, isOpen, play, entrants]

end Open

section Closed

variable {before : List Call} (isClosed : closed before = true)
include isClosed

theorem told_of_closed :
    told before = atTurn ((entrantsInTurn before).map Entry.ofEntrant).toArray
      (if (entrants before).isEmpty then 0 else turns before) := by
  rw [told, isClosed]
  rfl

theorem told_concat_of_closed (call : Call) :
    told (before ++ [call]) =
      atTurn ((entrantsInTurn before).map Entry.ofEntrant).toArray
        (if (entrants before).isEmpty then 0 else turns before + [call].countP Call.isPlay) := by
  have stays : closed (before ++ [call]) = true := by rw [closed_append, isClosed]; rfl
  rw [told_of_closed stays, turns_append_of_closed isClosed, entrants_append_of_closed isClosed,
    entrantsInTurn_append_of_closed isClosed]

theorem upcoming?_told_of_closed :
    (told before).upcoming? =
      ((entrantsInTurn before).map Entry.ofEntrant)[turns before % (entrants before).length]? := by
  rw [told_of_closed isClosed, upcoming?, atTurn, if_pos rfl]
  cases nothing : (entrants before).isEmpty with
  | true => simp [entrantsInTurn_of_isEmpty nothing]
  | false => simp [length_entrantsInTurn]

theorem play_told_of_closed (query : Query) :
    ((told before).play query).2 = told (before ++ [.play query]) := by
  rw [told_concat_of_closed isClosed, told_of_closed isClosed]
  cases nothing : (entrants before).isEmpty with
  | true => simp [entrantsInTurn_of_isEmpty nothing, play, atTurn]
  | false =>
    have size : ((entrantsInTurn before).map Entry.ofEntrant).toArray.size =
        (entrants before).length := by
      simp [length_entrantsInTurn]
    have some : 0 < (entrants before).length :=
      List.length_pos_iff.mpr fun empty => by simp [empty] at nothing
    simp only [play_atTurn (size ▸ some), Bool.false_eq_true, if_false]
    rfl

theorem step_told_of_closed (call : Call) :
    step (told before) call = (answer before call, told (before ++ [call])) := by
  cases call with
  | add entrant =>
    rw [told_concat_of_closed isClosed, told_of_closed isClosed]
    simp [step, answer, isClosed, add, atTurn, Call.isPlay]
  | finalize =>
    rw [told_concat_of_closed isClosed, told_of_closed isClosed]
    simp [step, answer, finalize, atTurn, Call.isPlay]
  | play query =>
    have voiced (entrant : Entrant) :
        (Entry.ofEntrant entrant).voicing.sound? query.velocity =
          entrant.sound? query.velocity := sound?_ofRegion entrant query.velocity
    rw [← play_told_of_closed isClosed]
    simp only [step, answer, isClosed, if_true, play_eq_upcoming?,
      upcoming?_told_of_closed isClosed, List.getElem?_map, Option.bind_map, Function.comp_def,
      voiced]

end Closed

theorem step_told (before : List Call) (call : Call) :
    step (told before) call = (answer before call, told (before ++ [call])) := by
  cases isClosed : closed before with
  | false => exact step_told_of_open isClosed call
  | true => exact step_told_of_closed isClosed call

theorem run_eq_told (calls : List Call) : run step {} calls = told calls := by
  simpa only [told_nil, List.nil_append] using run_told step_told [] calls

theorem answers_eq (calls : List Call) :
    answers step {} calls =
      calls.mapIdx fun position call => answer (calls.take position) call := by
  simpa only [told_nil, List.nil_append] using answers_told step_told [] calls

def concerned : RoundRobin → List Call → List Entry
  | _, [] => []
  | player, call :: rest =>
    (if call.isPlay then player.upcoming?.toList else []) ++ concerned (step player call).2 rest

/-- The first elements of a list repeated over and over. -/
def cycle {α : Type} (elements : List α) (count : Nat) : List α :=
  (List.range count).filterMap fun turn => elements[turn % elements.length]?

theorem cycle_succ {α : Type} (elements : List α) (count : Nat) :
    cycle elements (count + 1) =
      cycle elements count ++ elements[count % elements.length]?.toList := by
  rw [cycle, List.range_succ, List.filterMap_append, cycle]
  cases found : elements[count % elements.length]? <;> simp [found]

theorem cycle_eq_map {α : Type} {elements : List α} (some : 0 < elements.length) (count : Nat) :
    cycle elements count =
      (List.range count).map fun turn =>
        elements.get ⟨turn % elements.length, Nat.mod_lt _ some⟩ := by
  rw [cycle, ← List.filterMap_eq_map]
  apply List.filterMap_congr
  intro turn _
  exact List.getElem?_eq_getElem (Nat.mod_lt _ some)

/-- As many elements of the repetition in a row as the list has are the list, begun elsewhere. -/
theorem isRotated_of_infix_cycle {α : Type} {elements window : List α} {count : Nat}
    (inside : window <:+: cycle elements count) (length : window.length = elements.length) :
    window ~r elements := by
  by_cases some : 0 < elements.length
  · obtain ⟨front, back, whole⟩ := inside
    have total := congrArg List.length whole
    simp only [cycle_eq_map some, List.length_append, List.length_map, List.length_range] at total
    refine List.IsRotated.symm ⟨front.length, List.ext_getElem? fun position => ?_⟩
    by_cases bound : position < elements.length
    · have inCycle : front.length + position < count := by omega
      calc (elements.rotate front.length)[position]?
          = elements[(front.length + position) % elements.length]? := by
            rw [List.getElem?_rotate bound, Nat.add_comm]
        _ = (cycle elements count)[front.length + position]? := by
            simp [cycle_eq_map some, inCycle, Nat.mod_lt _ some]
        _ = window[position]? := by
            rw [← whole, List.append_assoc, List.getElem?_append_right (Nat.le_add_right _ _),
              Nat.add_sub_cancel_left, List.getElem?_append_left (length ▸ bound)]
    · rw [List.getElem?_eq_none (by simpa using bound),
        List.getElem?_eq_none (by simpa [length] using bound)]
  · have none : elements = [] := List.length_eq_zero_iff.mp (by omega)
    rw [none, List.length_nil, List.length_eq_zero_iff] at length
    rw [none, length]

theorem concerned_append (player : RoundRobin) (calls rest : List Call) :
    concerned player (calls ++ rest) =
      concerned player calls ++ concerned (run step player calls) rest := by
  induction calls generalizing player with
  | nil => rfl
  | cons call others ih =>
    rw [List.cons_append, concerned, concerned, ih, List.append_assoc]
    rfl

theorem concerned_eq_cycle (calls : List Call) :
    concerned {} calls = cycle ((entrantsInTurn calls).map Entry.ofEntrant) (turns calls) := by
  -- from the end of the history: only a play of a finalized player adds an entry and a turn
  induction calls using List.reverseRecOn with
  | nil => rfl
  | append_singleton calls call ih =>
    rw [concerned_append, run_eq_told, ih]
    cases isClosed : closed calls with
    | false =>
      have before : turns calls = 0 := by
        rw [← List.append_nil calls, turns_append_of_open isClosed]
        rfl
      have now : turns (calls ++ [call]) = 0 := by
        rw [turns_append_of_open isClosed]
        cases call <;> rfl
      have none : (told calls).upcoming? = none := by
        rw [told_of_open isClosed]
        rfl
      simp [before, now, cycle, concerned, none]
    | true =>
      have upcoming := upcoming?_told_of_closed isClosed
      rw [entrantsInTurn_append_of_closed isClosed, turns_append_of_closed isClosed]
      cases call with
      | add entrant => simp [concerned, Call.isPlay]
      | finalize => simp [concerned, Call.isPlay]
      | play query =>
        have length : ((entrantsInTurn calls).map Entry.ofEntrant).length =
            (entrants calls).length := by
          rw [List.length_map, length_entrantsInTurn]
        have one : List.countP Call.isPlay [.play query] = 1 := rfl
        rw [one, cycle_succ, length, ← upcoming]
        exact congrArg _ (List.append_nil _)

/-- Calls to a new player are answered as the calls before them decide. What comes too late or too
early changes nothing. The plays go round the entries that came in time, in the order of their
positions, so that as many plays in a row as there are entries concern each of them once. -/
theorem life_rotates (calls : List Call) :
    (answers step {} calls =
        calls.mapIdx fun position call => answer (calls.take position) call) ∧
      (closed calls = true → ∀ call, call.isPlay = false →
        run step {} (calls ++ [call]) = run step {} calls) ∧
      (closed calls = false ∨ entrants calls = [] → ∀ query,
        run step {} (calls ++ [.play query]) = run step {} calls) ∧
      concerned {} calls = cycle ((entrantsInTurn calls).map Entry.ofEntrant) (turns calls) ∧
      ∀ window, window <:+: concerned {} calls → window.length = (entrants calls).length →
        window ~r (entrantsInTurn calls).map Entry.ofEntrant ∧
          window.Perm ((entrants calls).map Entry.ofEntrant) := by
  refine ⟨answers_eq calls, ?_, ?_, concerned_eq_cycle calls, ?_⟩
  · intro isClosed call noPlay
    rw [run_eq_told, run_eq_told, told_concat_of_closed isClosed, told_of_closed isClosed,
      List.countP_singleton, noPlay]
    rfl
  · intro idle query
    cases isClosed : closed calls with
    | false =>
      rw [run_eq_told, run_eq_told, told_concat_of_open isClosed rfl, told_of_open isClosed]
      simp [entrants]
    | true =>
      have nothing : entrants calls = [] := idle.resolve_left (by simp [isClosed])
      rw [run_eq_told, run_eq_told, told_concat_of_closed isClosed, told_of_closed isClosed,
        nothing]
      rfl
  · intro window inside length
    rw [concerned_eq_cycle] at inside
    have rotated := isRotated_of_infix_cycle inside
      (by rw [length, List.length_map, length_entrantsInTurn])
    exact ⟨rotated, rotated.perm.trans ((List.mergeSort_perm _ _).map _)⟩

/-- Two regions in the order opposite to their positions, one that comes too late between the plays,
and a play that makes no sound. -/
theorem life_rotates_kit :
    let kick : Entrant :=
      { zone := { region := { seqPosition := 2 }, sampleIndex := 1 }, pitch := 60 }
    let snare : Entrant :=
      { zone := { region := { seqPosition := 1 }, sampleIndex := 2 }, pitch := 60 }
    let calls : List Call :=
      [.add kick, .add snare, .finalize, .play ⟨60, 100⟩, .add kick, .play ⟨60, 0⟩]
    closed calls = true ∧
      run step {} (calls ++ [.finalize]) = run step {} calls ∧
      run step {} ([.add kick] ++ [.play ⟨60, 100⟩]) = run step {} [.add kick] ∧
      concerned {} calls = [Entry.ofEntrant snare, Entry.ofEntrant kick] ∧
      (concerned {} calls).Perm [Entry.ofEntrant kick, Entry.ofEntrant snare] := by
  intro kick snare calls
  obtain ⟨_, late, _, goesRound, rotates⟩ := life_rotates calls
  obtain ⟨_, _, early, _⟩ := life_rotates [.add kick]
  have sorted : entrantsInTurn calls = [snare, kick] := by
    simp [entrantsInTurn, entrants, calls, kick, snare, List.mergeSort,
      List.MergeSort.Internal.splitInTwo]
  have both : concerned {} calls = [Entry.ofEntrant snare, Entry.ofEntrant kick] := by
    rw [goesRound, sorted]
    rfl
  refine ⟨rfl, late rfl _ rfl, early (.inl rfl) _, both, ?_⟩
  exact (rotates _ (List.infix_refl _) (by rw [both]; rfl)).2

end RoundRobin

end Sfz
