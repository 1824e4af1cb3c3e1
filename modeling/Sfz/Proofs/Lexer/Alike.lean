import Sfz.Proofs.Lexer.Reading

/-! Scans that differ only in their lines and in their past questions.

Two states are alike if they agree on everything that decides how a scan goes on. The files asked
for may begin differently but continue alike. Alike states answer every character alike, so scans
that start alike end alike, through all the texts that they include, where every file has one
answer.
-/

set_option autoImplicit false

namespace Sfz.Lexer

def State.lexemes (state : State) : List Lexeme :=
  state.tokens.toList.map Token.lexeme

/-- Questions that begin with the given ones and go on in the same way. -/
def AskedAlike (former latter : List String) (first second : Array String) : Prop :=
  ∃ since, first.toList = former ++ since ∧ second.toList = latter ++ since

theorem AskedAlike.push {former latter : List String} {first second : Array String}
    (alike : AskedAlike former latter first second) (file : String) :
    AskedAlike former latter (first.push file) (second.push file) := by
  obtain ⟨since, left, right⟩ := alike
  refine ⟨since ++ [file], ?_, ?_⟩
  · rw [Array.toList_push, left, List.append_assoc]
  · rw [Array.toList_push, right, List.append_assoc]

structure State.Alike (former latter : List String) (first second : State) : Prop where
  mode : first.mode = second.mode
  context : first.context = second.context
  lexemes : first.lexemes = second.lexemes
  asked : AskedAlike former latter first.asked second.asked

inductive Move.Alike (former latter : List String) : Move → Move → Prop where
  | next {first second : State} :
    first.Alike former latter second → Alike former latter (.next first) (.next second)
  | enter {file : String} {first second : State} :
    first.Alike former latter second →
      Alike former latter (.enter file first) (.enter file second)
  | fail {fault : Fault} {first second : State} :
    first.Alike former latter second →
      Alike former latter (.fail fault first) (.fail fault second)

/-- Outcomes of alike scans; errors may differ. -/
inductive Outcome.Alike (former latter : List String) : Outcome → Outcome → Prop where
  | ok {first second : State} :
    first.Alike former latter second → Alike former latter (.ok first) (.ok second)
  | error {first second : Halt} :
    AskedAlike former latter first.asked second.asked →
      Alike former latter (.error first) (.error second)

variable {former latter : List String}

namespace State.Alike

variable {first second : State}

theorem bare (alike : first.Alike former latter second) : first.bare = second.bare := by
  rw [State.bare, State.bare, alike.mode, alike.context]

theorem extend (alike : first.Alike former latter second) (after : State) :
    (first.extend after).Alike former latter (second.extend after) where
  mode := rfl
  context := rfl
  lexemes := by
    have lexemes := alike.lexemes
    simp only [State.lexemes] at lexemes
    simp [State.lexemes, State.extend, lexemes, Function.comp_def]
  asked := alike.asked

theorem complete (alike : first.Alike former latter second) (read : List Char) :
    (first.complete read).Alike former latter (second.complete read) := by
  rw [← first.extend_bare, ← second.extend_bare, ← State.extend_complete,
    ← State.extend_complete, alike.bare]
  exact alike.extend _

theorem count (alike : first.Alike former latter second) (c : Char) :
    (first.count c).Alike former latter (second.count c) := by
  unfold State.count
  split
  · exact { alike with }
  · exact alike

-- The move is that of the bare state, which the two have in common.
theorem feed (alike : first.Alike former latter second) (c : Char) :
    (first.feed c).Alike former latter (second.feed c) := by
  have counted := alike.count c
  rw [State.feed_eq_extend, State.feed_eq_extend, alike.bare]
  cases second.bare.dispatch c with
  | next after => exact .next (counted.extend after)
  | enter file after => exact .enter (counted.extend after)
  | fail fault after => exact .fail (counted.extend after)

theorem halt (alike : first.Alike former latter second) (fault other : Fault) :
    (first.halt fault).Alike former latter (second.halt other) :=
  .error alike.asked

theorem finish (alike : first.Alike former latter second) :
    first.finish.Alike former latter second.finish := by
  unfold State.finish
  rw [alike.mode]
  split
  · exact .ok (alike.complete _)
  · exact alike.halt _ _
  · exact .ok alike

theorem opening (alike : first.Alike former latter second) :
    first.opening.Alike former latter second.opening :=
  { alike with mode := rfl }

end State.Alike

namespace Outcome.Alike

variable {first second : Outcome}

theorem bind (alike : first.Alike former latter second) {next : State → Outcome}
    (goesOn : ∀ {first second : State}, first.Alike former latter second →
      (next first).Alike former latter (next second)) :
    Outcome.Alike former latter (first >>= next) (second >>= next) := by
  cases alike with
  | ok states => exact goesOn states
  | error asked => exact .error asked

theorem resume (alike : first.Alike former latter second) (file : String) (line other : Nat) :
    (resume file line first).Alike former latter (resume file other second) := by
  cases alike with
  | ok states => exact .ok { states with mode := rfl }
  | error asked => exact .error asked

end Outcome.Alike

section Scans

variable {enter : String → State → Outcome}
  (enters : ∀ (file : String) {first second : State}, first.Alike former latter second →
    (enter file first).Alike former latter (enter file second))
include enters

theorem read_alike {first second : State} (alike : first.Alike former latter second)
    (chars : List Char) :
    (read enter first chars).Alike former latter (read enter second chars) := by
  induction chars generalizing first second with
  | nil => exact .ok alike
  | cons c rest ih =>
    have moves := alike.feed c
    rw [read, read]
    generalize first.feed c = left, second.feed c = right at moves
    cases moves with
    | next states => exact ih states
    | enter states => exact (enters _ states).bind ih
    | fail states => exact states.halt _ _

theorem scan_alike {first second : State} (alike : first.Alike former latter second)
    (chars : List Char) :
    (scan enter first chars).Alike former latter (scan enter second chars) := by
  rw [scan_eq_read, scan_eq_read]
  exact (read_alike enters alike chars).bind State.Alike.finish

end Scans

-- By induction on the room: an included text has one text less of it.
theorem entering_alike (resolve? : Option Resolver) (maxDepth room : Nat) (file : String)
    {first second : State} (alike : first.Alike former latter second) :
    (entering resolve? maxDepth room file first).Alike former latter
      (entering resolve? maxDepth room file second) := by
  induction room generalizing file first second with
  | zero => exact alike.halt _ _
  | succ room ih =>
    cases resolve? with
    | none => exact alike.halt _ _
    | some resolve =>
      have asks : State.Alike former latter
          { first with asked := first.asked.push file }
          { second with asked := second.asked.push file } :=
        { alike with asked := alike.asked.push file }
      -- the answer is the same in both states, whatever was asked for before
      have told (state : State) : Supplier.supply resolve state.asked file = resolve file := rfl
      cases resolved : resolve file with
      | error causes =>
        simp only [entering, told, resolved]
        exact asks.halt _ _
      | ok text =>
        rw [entering_of_supplied ((told first).trans resolved),
          entering_of_supplied ((told second).trans resolved)]
        exact (scan_alike (fun file => ih file) asks.opening _).resume _ _ _

end Sfz.Lexer
