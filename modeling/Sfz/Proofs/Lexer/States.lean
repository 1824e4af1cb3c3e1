import Sfz.Proofs.Lexer.Splice

/-! The states that a scan comes to.

A scan comes to a state before each character, at the end of each text and after it, in the text at
hand and in the texts that it includes. What every character and the end of a text keep up, and what
does not depend on the line, on the questions and on what is under way, holds of all of them.
-/

set_option autoImplicit false

namespace Sfz.Lexer

section Visits

variable (enter : String → State → Outcome) (inside : String → State → List State)

/-- The states of a scan, in order; `inside` tells those of an include directive. -/
def scanStates : State → List Char → List State
  | state, [] =>
    match state.finish with
    | .ok last => [state, last]
    | .error _ => [state]
  | state, c :: rest =>
    state ::
      match state.feed c with
      | .next state => scanStates state rest
      | .enter file state =>
        inside file state ++
          match enter file state with
          | .ok state => scanStates state rest
          | .error _ => []
      | .fail _ state => [state]

theorem mem_scanStates {state last : State} {chars : List Char}
    (scanned : scan enter state chars = .ok last) :
    last ∈ scanStates enter inside state chars := by
  induction chars generalizing state with
  | nil =>
    rw [scan] at scanned
    simp [scanStates, scanned]
  | cons c rest ih =>
    rw [scan] at scanned
    apply List.mem_cons_of_mem
    cases fed : state.feed c with
    | next next =>
      rw [fed] at scanned
      exact ih scanned
    | enter file next =>
      rw [fed] at scanned
      dsimp only at scanned ⊢
      cases entered : enter file next with
      | ok after =>
        rw [entered] at scanned
        exact List.mem_append_right _ (ih scanned)
      | error halt =>
        rw [entered] at scanned
        cases scanned
    | fail fault next =>
      rw [fed] at scanned
      cases scanned

end Visits

section Entering

variable {ρ : Type} [Supplier ρ] (supplier? : Option ρ) (maxDepth : Nat)

def enteringStates : Nat → String → State → List State
  | 0 => fun _ _ => []
  | room + 1 => fun file state =>
    match supplier? with
    | none => []
    | some supplier =>
      match Supplier.supply supplier state.asked file with
      | .error _ => []
      | .ok text =>
        scanStates (entering supplier? maxDepth room) (enteringStates room)
          { state with asked := state.asked.push file }.opening text.toList

def states (text : String) : List State :=
  scanStates (entering supplier? maxDepth maxDepth) (enteringStates supplier? maxDepth maxDepth) {}
    text.toList

theorem exists_last_of_lex {text : String} {tokens : List Token}
    (lexed : (lex supplier? maxDepth text).result = .ok tokens) :
    ∃ last ∈ states supplier? maxDepth text, last.tokens.toList = tokens := by
  rw [lex_eq_lexed] at lexed
  cases scanned : (scan (entering supplier? maxDepth maxDepth) {} text.toList : Outcome) with
  | ok last =>
    rw [scanned] at lexed
    exact ⟨last, mem_scanStates _ _ scanned, Except.ok.inj lexed⟩
  | error halt =>
    rw [scanned] at lexed
    cases lexed

end Entering

/-- What a scan keeps up, also on the way into an included text and out of it. -/
structure Kept (holds : State → Prop) : Prop where
  feed : ∀ {state : State}, holds state → ∀ c, holds (state.feed c).state
  complete : ∀ {state : State} {read : List Char}, holds state →
    state.mode = .identifier read → holds (state.complete read)
  turn : ∀ {state : State}, holds state → ∀ line asked,
    holds { state with mode := .ready, line, asked }

namespace Kept

variable {holds : State → Prop} (kept : Kept holds)
include kept

theorem finish {state last : State} (start : holds state) (finished : state.finish = .ok last) :
    holds last := by
  unfold State.finish at finished
  split at finished
  · next read under =>
    cases finished
    exact kept.complete start under
  · cases finished
  · cases finished
    exact start

theorem scanStates {enter : String → State → Outcome} {inside : String → State → List State}
    (enters : ∀ (file : String) (state : State), holds state →
      (∀ visited ∈ inside file state, holds visited) ∧
        ∀ after, enter file state = .ok after → holds after)
    {state : State} (start : holds state) (chars : List Char) :
    ∀ visited ∈ Lexer.scanStates enter inside state chars, holds visited := by
  induction chars generalizing state with
  | nil =>
    rw [Lexer.scanStates]
    cases finished : state.finish with
    | ok last => simp [start, kept.finish start finished]
    | error halt => simp [start]
  | cons c rest ih =>
    have fed := kept.feed start c
    rw [Lexer.scanStates, List.forall_mem_cons]
    refine ⟨start, ?_⟩
    cases moved : state.feed c with
    | next next =>
      rw [moved] at fed
      exact ih fed
    | enter file next =>
      rw [moved] at fed
      obtain ⟨visits, leads⟩ := enters file next fed
      dsimp only
      rw [List.forall_mem_append]
      refine ⟨visits, ?_⟩
      cases entered : enter file next with
      | ok after => exact ih (leads after entered)
      | error halt => simp
    | fail fault next =>
      rw [moved] at fed
      exact List.forall_mem_singleton.mpr fed

-- By induction on the room: an included text has one text less of it.
theorem entering {ρ : Type} [Supplier ρ] (supplier? : Option ρ) (maxDepth room : Nat)
    (file : String) {state : State} (start : holds state) :
    (∀ visited ∈ enteringStates supplier? maxDepth room file state, holds visited) ∧
      ∀ after, Lexer.entering supplier? maxDepth room file state = .ok after → holds after := by
  induction room generalizing file state with
  | zero =>
    refine ⟨by simp [enteringStates], ?_⟩
    rintro after ⟨⟩
  | succ room ih =>
    cases supplier? with
    | none =>
      refine ⟨by simp [enteringStates], ?_⟩
      rintro after ⟨⟩
    | some supplier =>
      cases supplied : Supplier.supply supplier state.asked file with
      | error causes =>
        refine ⟨by simp [enteringStates, supplied], ?_⟩
        intro after entered
        simp only [Lexer.entering, supplied, State.halt, reduceCtorEq] at entered
      | ok text =>
        have opened : holds { state with asked := state.asked.push file }.opening :=
          kept.turn start 0 (state.asked.push file)
        have visits := kept.scanStates (fun file _ reached => ih file reached) opened text.toList
        constructor
        · simp only [enteringStates, supplied]
          exact visits
        · intro after entered
          rw [entering_of_supplied supplied] at entered
          cases scanned : (scan (Lexer.entering (some supplier) maxDepth room)
              { state with asked := state.asked.push file }.opening text.toList : Outcome) with
          | ok last =>
            rw [scanned] at entered
            cases entered
            exact kept.turn (visits last (mem_scanStates _ _ scanned)) state.line last.asked
          | error halt =>
            rw [scanned] at entered
            cases entered

theorem states (start : holds {}) {ρ : Type} [Supplier ρ] (supplier? : Option ρ) (maxDepth : Nat)
    (text : String) :
    ∀ visited ∈ Lexer.states supplier? maxDepth text, holds visited :=
  kept.scanStates (fun file _ reached => kept.entering supplier? maxDepth maxDepth file reached)
    start text.toList

end Kept

end Sfz.Lexer
