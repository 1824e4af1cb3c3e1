import Sfz.Lexer.Include
import Sfz.Proofs.Lexer.Moves

/-! Reading a text in parts.

A scan reads its characters and then reaches the end of the text. The reading alone can be cut
anywhere. Questions are only ever added. Where fewer texts may be open inside one another, the
reading is the same unless it stops for that reason, and then it has asked the first of the same
questions.
-/

set_option autoImplicit false

namespace Sfz.Lexer

section Entering

variable {ρ : Type} [Supplier ρ]

/-- What an include directive does in a text inside which `room` more texts may be open. -/
def entering (supplier? : Option ρ) (maxDepth : Nat) : Nat → String → State → Outcome
  | 0 => fun file state => state.halt (.includeTooDeep file maxDepth)
  | room + 1 => fun file state =>
    match supplier? with
    | none => state.halt .includeUnavailable
    | some supplier =>
      let asking := { state with asked := state.asked.push file }
      match Supplier.supply supplier state.asked file with
      | .error causes => asking.halt (.includeFailed file causes)
      | .ok text =>
        resume file state.line (run supplier? maxDepth room asking.opening text.toList)

theorem run_eq_scan (supplier? : Option ρ) (maxDepth room : Nat) :
    run supplier? maxDepth room = scan (entering supplier? maxDepth room) := by
  cases room with
  | zero => rfl
  | succ room => rfl

theorem entering_of_supplied {supplier : ρ} {state : State} {file text : String}
    (supplied : Supplier.supply supplier state.asked file = .ok text) (maxDepth room : Nat) :
    entering (some supplier) maxDepth (room + 1) file state =
      resume file state.line
        (scan (entering (some supplier) maxDepth room)
          { state with asked := state.asked.push file }.opening text.toList) := by
  rw [← run_eq_scan]
  simp only [entering, supplied]

end Entering

section Read

variable (enter : String → State → Outcome)

def read : State → List Char → Outcome
  | state, [] => .ok state
  | state, c :: rest =>
    match state.feed c with
    | .next state => read state rest
    | .enter file state => enter file state >>= fun state => read state rest
    | .fail fault state => state.halt fault

theorem read_append (state : State) (first second : List Char) :
    read enter state (first ++ second) =
      read enter state first >>= fun state => read enter state second := by
  induction first generalizing state with
  | nil => rfl
  | cons c rest ih =>
    rw [List.cons_append, read, read]
    cases state.feed c with
    | next state => exact ih state
    | enter file state =>
      dsimp only
      cases enter file state with
      | ok state => exact ih state
      | error halt => rfl
    | fail fault state => rfl

theorem scan_eq_read (state : State) (chars : List Char) :
    scan enter state chars = read enter state chars >>= State.finish := by
  induction chars generalizing state with
  | nil => rfl
  | cons c rest ih =>
    rw [scan, read]
    cases state.feed c with
    | next state => exact ih state
    | enter file state =>
      dsimp only
      cases enter file state with
      | ok state => exact ih state
      | error halt => rfl
    | fail fault state => rfl

theorem scan_append (state : State) (first second : List Char) :
    scan enter state (first ++ second) =
      read enter state first >>= fun state => scan enter state second := by
  rw [scan_eq_read, read_append]
  cases read enter state first with
  | ok state => exact (scan_eq_read enter state second).symm
  | error halt => rfl

theorem scan_append_of_read {state middle : State} {first : List Char}
    (reached : read enter state first = .ok middle) (second : List Char) :
    scan enter state (first ++ second) = scan enter middle second := by
  rw [scan_append, reached]
  rfl

end Read

def Outcome.TooDeep (outcome : Outcome) : Prop :=
  ∃ halt file limit, outcome = .error halt ∧ halt.error.fault = .includeTooDeep file limit

namespace Outcome

def asked : Outcome → List String
  | .ok state => state.asked.toList
  | .error halt => halt.asked.toList

theorem asked_resume (file : String) (line : Nat) (outcome : Outcome) :
    (resume file line outcome).asked = outcome.asked := by
  cases outcome with
  | ok state => rfl
  | error halt => rfl

theorem asked_finish (state : State) : asked state.finish = state.asked.toList := by
  unfold State.finish
  split <;> rfl

theorem asked_bind_finish (outcome : Outcome) :
    asked (outcome >>= State.finish) = outcome.asked := by
  cases outcome with
  | ok state => exact asked_finish state
  | error halt => rfl

theorem asked_bind {next : State → Outcome}
    (grows : ∀ state, state.asked.toList <+: (next state).asked) (outcome : Outcome) :
    outcome.asked <+: asked (outcome >>= next) := by
  cases outcome with
  | ok state => exact grows state
  | error halt => exact List.prefix_refl _

namespace TooDeep

variable {outcome : Outcome} (deep : outcome.TooDeep)
include deep

theorem bind_eq (next : State → Outcome) : outcome >>= next = outcome := by
  obtain ⟨halt, _, _, rfl, _⟩ := deep
  rfl

theorem bind (next : State → Outcome) : TooDeep (outcome >>= next) := by
  rw [deep.bind_eq]
  exact deep

theorem resume (file : String) (line : Nat) : (Lexer.resume file line outcome).TooDeep := by
  obtain ⟨halt, inner, limit, rfl, fault⟩ := deep
  exact ⟨_, inner, limit, rfl, fault⟩

end TooDeep

/-- To be the same as another scan, or cut off from it because too many texts were open. -/
def CutFrom (outcome full : Outcome) : Prop :=
  outcome = full ∨ outcome.TooDeep ∧ outcome.asked <+: full.asked

namespace CutFrom

variable {outcome full : Outcome} (cut : outcome.CutFrom full)
include cut

theorem bind {next other : State → Outcome} (cuts : ∀ state, (next state).CutFrom (other state))
    (grows : ∀ state, state.asked.toList <+: (other state).asked) :
    CutFrom (outcome >>= next) (full >>= other) := by
  rcases cut with rfl | ⟨deep, before⟩
  · cases outcome with
    | ok state => exact cuts state
    | error halt => exact .inl rfl
  · rw [deep.bind_eq]
    exact .inr ⟨deep, before.trans (asked_bind grows full)⟩

theorem resume (file : String) (line : Nat) :
    (Lexer.resume file line outcome).CutFrom (Lexer.resume file line full) := by
  rcases cut with rfl | ⟨deep, before⟩
  · exact .inl rfl
  · refine .inr ⟨deep.resume file line, ?_⟩
    rwa [asked_resume, asked_resume]

end CutFrom

end Outcome

section Depth

variable {enter other : String → State → Outcome}

theorem asked_read (grows : ∀ file state, state.asked.toList <+: (enter file state).asked)
    (state : State) (chars : List Char) :
    state.asked.toList <+: (read enter state chars).asked := by
  induction chars generalizing state with
  | nil => exact List.prefix_refl _
  | cons c rest ih =>
    rw [read, ← State.asked_feed state c]
    cases state.feed c with
    | next state => exact ih state
    | enter file state => exact (grows file state).trans (Outcome.asked_bind ih _)
    | fail fault state => exact List.prefix_refl _

theorem read_cut (cuts : ∀ file state, (enter file state).CutFrom (other file state))
    (grows : ∀ file state, state.asked.toList <+: (other file state).asked)
    (state : State) (chars : List Char) :
    (read enter state chars).CutFrom (read other state chars) := by
  induction chars generalizing state with
  | nil => exact .inl rfl
  | cons c rest ih =>
    rw [read, read]
    cases state.feed c with
    | next state => exact ih state
    | enter file state =>
      exact (cuts file state).bind ih fun state => asked_read grows state rest
    | fail fault state => exact .inl rfl

theorem scan_cut (cuts : ∀ file state, (enter file state).CutFrom (other file state))
    (grows : ∀ file state, state.asked.toList <+: (other file state).asked)
    (state : State) (chars : List Char) :
    (scan enter state chars).CutFrom (scan other state chars) := by
  rw [scan_eq_read, scan_eq_read]
  refine (read_cut cuts grows state chars).bind (fun _ => .inl rfl) fun state => ?_
  simp only [Outcome.asked_finish, List.prefix_refl]

end Depth

section Room

variable {ρ : Type} [Supplier ρ] (supplier? : Option ρ) (maxDepth : Nat)

theorem asked_entering (room : Nat) (file : String) (state : State) :
    state.asked.toList <+: (entering supplier? maxDepth room file state).asked := by
  induction room generalizing file state with
  | zero => exact List.prefix_refl _
  | succ room ih =>
    cases supplier? with
    | none => exact List.prefix_refl _
    | some supplier =>
      have pushed : state.asked.toList <+: (state.asked.push file).toList := by simp
      cases supplied : Supplier.supply supplier state.asked file with
      | error causes =>
        simp only [entering, supplied]
        exact pushed
      | ok text =>
        rw [entering_of_supplied supplied, Outcome.asked_resume, scan_eq_read,
          Outcome.asked_bind_finish]
        exact pushed.trans (asked_read ih
          { state with asked := state.asked.push file }.opening text.toList)

/-- More room for open texts changes nothing but where too many are open. -/
theorem entering_cut (otherDepth : Nat) {room more : Nat} (fewer : room ≤ more) (file : String)
    (state : State) :
    (entering supplier? maxDepth room file state).CutFrom
      (entering supplier? otherDepth more file state) := by
  -- the induction is on the smaller room; the texts inside have one less on both sides
  induction room generalizing more file state with
  | zero =>
    exact .inr ⟨⟨_, file, maxDepth, rfl, rfl⟩, asked_entering supplier? otherDepth more file state⟩
  | succ room ih =>
    obtain ⟨more, rfl⟩ : ∃ rest, more = rest + 1 := ⟨more - 1, by omega⟩
    cases supplier? with
    | none => exact .inl rfl
    | some supplier =>
      cases supplied : Supplier.supply supplier state.asked file with
      | error causes => exact .inl (by simp only [entering, supplied])
      | ok text =>
        rw [entering_of_supplied supplied, entering_of_supplied supplied]
        exact (scan_cut (fun file state => ih (Nat.le_of_succ_le_succ fewer) file state)
          (asked_entering (some supplier) otherDepth more) _ _).resume _ _

end Room

end Sfz.Lexer
