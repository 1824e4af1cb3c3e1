import Sfz.Proofs.Lexer.Splice

/-! The limit on open files.

A scan under a lower limit is the scan under a higher one, or it stops because too many files are
open and has asked the first of the same questions. The course of a scan is told by its questions,
each with the files open when it was asked; there are fewer of them than the limit. Where every text
that comes up leads to a further directive, the scan goes down to the limit and stops there, with
one question for each level.
-/

set_option autoImplicit false

namespace Sfz.Lexer

/-- A file asked for after earlier ones, with the open files at that moment, innermost first, and
the state, in which the question is counted. -/
structure Question where
  file : String
  earlier : Array String
  within : List String
  state : State

section Questions

variable (enter : String → State → Outcome) (inside : String → State → List Question)

/-- The questions of a reading; `inside` tells those of an include directive. -/
def readQuestions : State → List Char → List Question
  | _, [] => []
  | state, c :: rest =>
    match state.feed c with
    | .next state => readQuestions state rest
    | .enter file state =>
      inside file state ++
        match enter file state with
        | .ok state => readQuestions state rest
        | .error _ => []
    | .fail _ _ => []

theorem asked_read_eq
    (each : ∀ file state, (enter file state).asked =
      state.asked.toList ++ (inside file state).map Question.file)
    (state : State) (chars : List Char) :
    (read enter state chars).asked =
      state.asked.toList ++ (readQuestions enter inside state chars).map Question.file := by
  induction chars generalizing state with
  | nil => exact (List.append_nil _).symm
  | cons c rest ih =>
    rw [read, readQuestions, ← State.asked_feed state c]
    cases state.feed c with
    | next state => exact ih state
    | enter file state =>
      have asked := each file state
      dsimp only [Move.state]
      rw [List.map_append, ← List.append_assoc, ← asked]
      cases enter file state with
      | ok state => exact ih state
      | error halt => exact (List.append_nil _).symm
    | fail fault state => exact (List.append_nil _).symm

end Questions

section Entering

variable {ρ : Type} [Supplier ρ] (supplier? : Option ρ) (maxDepth : Nat)

def enteringQuestions : Nat → List String → String → State → List Question
  | 0 => fun _ _ _ => []
  | room + 1 => fun within file state =>
    match supplier? with
    | none => []
    | some supplier =>
      let asking := { state with asked := state.asked.push file }
      { file, earlier := state.asked, within, state := asking } ::
        match Supplier.supply supplier state.asked file with
        | .error _ => []
        | .ok text =>
          readQuestions (entering supplier? maxDepth room)
            (enteringQuestions room (file :: within)) asking.opening text.toList

def questions (text : String) : List Question :=
  readQuestions (entering supplier? maxDepth maxDepth)
    (enteringQuestions supplier? maxDepth maxDepth []) {} text.toList

theorem asked_entering_eq (room : Nat) (within : List String) (file : String) (state : State) :
    (entering supplier? maxDepth room file state).asked =
      state.asked.toList ++
        (enteringQuestions supplier? maxDepth room within file state).map Question.file := by
  induction room generalizing within file state with
  | zero => exact (List.append_nil _).symm
  | succ room ih =>
    cases supplier? with
    | none => exact (List.append_nil _).symm
    | some supplier =>
      cases supplied : Supplier.supply supplier state.asked file with
      | error causes => simp [entering, enteringQuestions, supplied, State.halt, Outcome.asked]
      | ok text =>
        rw [entering_of_supplied supplied, Outcome.asked_resume, scan_eq_read,
          Outcome.asked_bind_finish, asked_read_eq _ _ (ih (file :: within))]
        simp [enteringQuestions, supplied, State.opening]

theorem Outcome.asked_lexed (outcome : Outcome) : outcome.lexed.asked = outcome.asked := by
  cases outcome with
  | ok state => rfl
  | error halt => rfl

theorem asked_lex (text : String) :
    (lex supplier? maxDepth text).asked =
      (questions supplier? maxDepth text).map Question.file := by
  rw [lex_eq_lexed, Outcome.asked_lexed, scan_eq_read, Outcome.asked_bind_finish,
    asked_read_eq _ _ (asked_entering_eq supplier? maxDepth maxDepth [])]
  rfl

theorem forall_mem_readQuestions {holds : Question → Prop}
    {enter : String → State → Outcome} {inside : String → State → List Question}
    (each : ∀ file state, ∀ question ∈ inside file state, holds question)
    (state : State) (chars : List Char) :
    ∀ question ∈ readQuestions enter inside state chars, holds question := by
  induction chars generalizing state with
  | nil => simp [readQuestions]
  | cons c rest ih =>
    rw [readQuestions]
    cases state.feed c with
    | next state => exact ih state
    | enter file state =>
      intro question member
      rcases List.mem_append.mp member with here | later
      · exact each file state question here
      · cases entered : enter file state with
        | ok state => exact ih state question (by simpa [entered] using later)
        | error halt => simp [entered] at later
    | fail fault state => simp

-- A question takes up one of the rooms that are left.
theorem length_within_entering (room : Nat) (within : List String) (file : String)
    (state : State) :
    ∀ question ∈ enteringQuestions supplier? maxDepth room within file state,
      question.within.length < within.length + room := by
  induction room generalizing within file state with
  | zero => simp [enteringQuestions]
  | succ room ih =>
    cases supplier? with
    | none => simp [enteringQuestions]
    | some supplier =>
      intro question member
      rcases List.mem_cons.mp member with rfl | later
      · exact Nat.lt_add_of_pos_right (Nat.succ_pos room)
      · cases supplied : Supplier.supply supplier state.asked file with
        | error causes => simp [supplied] at later
        | ok text =>
          have inside := forall_mem_readQuestions (ih (file :: within)) _ _ question
            (by simpa only [supplied] using later)
          simp only [List.length_cons] at inside
          omega

theorem length_within_lt (text : String) :
    ∀ question ∈ questions supplier? maxDepth text, question.within.length < maxDepth := by
  have each (file : String) (state : State) :=
    length_within_entering supplier? maxDepth maxDepth [] file state
  simp only [List.length_nil, Nat.zero_add] at each
  exact forall_mem_readQuestions each {} text.toList

end Entering

inductive ReachesDirective : State → List Char → Prop where
  | enter {state next : State} {c : Char} {rest : List Char} {file : String} :
    state.feed c = .enter file next → ReachesDirective state (c :: rest)
  | next {state next : State} {c : Char} {rest : List Char} :
    state.feed c = .next next → ReachesDirective next rest → ReachesDirective state (c :: rest)

theorem ReachesDirective.of_read {enter : String → State → Outcome} {state middle : State}
    {first second : List Char} (reached : read enter state first = .ok middle)
    (reaches : ReachesDirective middle second) : ReachesDirective state (first ++ second) := by
  induction first generalizing state with
  | nil =>
    cases reached
    exact reaches
  | cons c rest ih =>
    rw [read] at reached
    cases fed : state.feed c with
    | next next =>
      rw [fed] at reached
      exact .next fed (ih reached)
    | enter file next => exact .enter fed
    | fail fault next =>
      rw [fed] at reached
      cases reached

theorem ReachesDirective.first {state : State} {chars : List Char}
    (reaches : ReachesDirective state chars) :
    ∃ file next rest, next.asked = state.asked ∧
      (∀ enter, scan enter state chars = enter file next >>= fun state => scan enter state rest) ∧
      ∀ enter inside, inside file next ⊆ readQuestions enter inside state chars := by
  induction reaches with
  | @enter state next c rest file fed =>
    refine ⟨file, next, rest, ?_, ?_, ?_⟩
    · rw [← State.asked_feed state c, fed]
      rfl
    · intro enter
      rw [scan, fed]
      dsimp only
      cases enter file next with
      | ok state => rfl
      | error halt => rfl
    · intro enter inside
      rw [readQuestions, fed]
      exact List.subset_append_left _ _
  | @next state next c rest fed _ ih =>
    obtain ⟨file, after, rest, asked, scanned, asks⟩ := ih
    refine ⟨file, after, rest, ?_, ?_, ?_⟩
    · rw [asked, ← State.asked_feed state c, fed]
      rfl
    · intro enter
      rw [scan, fed]
      exact scanned enter
    · intro enter inside
      rw [readQuestions, fed]
      exact asks enter inside

section Descent

variable {ρ : Type} [Supplier ρ]

/-- To have an answer, if it is a text, that comes to a directive itself. -/
def Question.Descends (supplier : ρ) (question : Question) : Prop :=
  ∀ text, Supplier.supply supplier question.earlier question.file = .ok text →
    ReachesDirective question.state.opening text.toList

variable {supplier : ρ}
  (answers : ∀ earlier file, ∃ text, Supplier.supply supplier earlier file = .ok text)
  (maxDepth : Nat)
include answers

-- The first directive of a text is never left again, so every room is entered once.
theorem entering_descends (room : Nat) (within : List String) (file : String) (state : State)
    (descends : ∀ question ∈ enteringQuestions (some supplier) maxDepth room within file state,
      question.Descends supplier) :
    (entering (some supplier) maxDepth room file state).TooDeep ∧
      (entering (some supplier) maxDepth room file state).asked.length =
        state.asked.size + room := by
  induction room generalizing within file state with
  | zero => exact ⟨⟨_, file, maxDepth, rfl, rfl⟩, rfl⟩
  | succ room ih =>
    obtain ⟨text, supplied⟩ := answers state.asked file
    simp only [enteringQuestions, supplied, List.forall_mem_cons] at descends
    obtain ⟨reaches, inside⟩ := descends
    obtain ⟨inner, next, rest, asked, scanned, asks⟩ := (reaches text supplied).first
    obtain ⟨deep, count⟩ := ih (file :: within) inner next fun question member =>
      inside question (asks _ _ member)
    rw [entering_of_supplied supplied, scanned, deep.bind_eq, Outcome.asked_resume, count, asked]
    refine ⟨deep.resume file state.line, ?_⟩
    simp only [State.opening, Array.size_push]
    omega

theorem lex_descends {text : String} (reaches : ReachesDirective {} text.toList)
    (descends : ∀ question ∈ questions (some supplier) maxDepth text,
      question.Descends supplier) :
    (lex (some supplier) maxDepth text).TooDeep ∧
      (lex (some supplier) maxDepth text).asked.length = maxDepth := by
  obtain ⟨file, next, rest, asked, scanned, asks⟩ := reaches.first
  obtain ⟨deep, count⟩ := entering_descends answers maxDepth maxDepth [] file next
    fun question member => descends question (asks _ _ member)
  rw [lex_eq_lexed, scanned, deep.bind_eq, Outcome.asked_lexed, count, asked]
  exact ⟨deep.lexed, Nat.zero_add _⟩

end Descent

/-- A lower limit only cuts a scan off, no file is asked for while as many as allowed are open, and
where every text leads to a further directive the limit is reached with one question a level. -/
theorem lex_limit {ρ : Type} [Supplier ρ] {maxDepth more : Nat} (fewer : maxDepth ≤ more)
    (supplier? : Option ρ) (text : String) :
    (lex supplier? maxDepth text = lex supplier? more text ∨
      (lex supplier? maxDepth text).TooDeep ∧
        (lex supplier? maxDepth text).asked <+: (lex supplier? more text).asked) ∧
    ((lex supplier? maxDepth text).asked = (questions supplier? maxDepth text).map Question.file ∧
      ∀ question ∈ questions supplier? maxDepth text, question.within.length < maxDepth) ∧
    (∀ supplier, supplier? = some supplier →
      (∀ earlier file, ∃ included, Supplier.supply supplier earlier file = .ok included) →
      ReachesDirective {} text.toList →
      (∀ question ∈ questions supplier? maxDepth text, question.Descends supplier) →
        (lex supplier? maxDepth text).TooDeep ∧
          (lex supplier? maxDepth text).asked.length = maxDepth) := by
  refine ⟨?_, ⟨asked_lex supplier? maxDepth text, length_within_lt supplier? maxDepth text⟩, ?_⟩
  · have cut := scan_cut (entering_cut supplier? maxDepth more fewer)
      (asked_entering supplier? more more) {} text.toList
    rw [lex_eq_lexed, lex_eq_lexed]
    rcases cut with same | ⟨deep, before⟩
    · exact .inl (congrArg Outcome.lexed same)
    · rw [Outcome.asked_lexed, Outcome.asked_lexed]
      exact .inr ⟨deep.lexed, before⟩
  · rintro supplier rfl answers reaches descends
    exact lex_descends answers maxDepth reaches descends

/-- A file that includes itself, under a limit of two and of three. -/
theorem lex_limit_of_self :
    let resolve : Resolver := fun _ => .ok (directive "self")
    (lex (some resolve) 2 (directive "self")).TooDeep ∧
      (lex (some resolve) 2 (directive "self")).asked.length = 2 ∧
      ∀ question ∈ questions (some resolve) 2 (directive "self"), question.within.length < 2 := by
  intro resolve
  have reaches (state : State) : ReachesDirective state.opening (directive "self").toList := by
    have reached : read (entering none 0 0) state.opening "#include \"self".toList =
        .ok { state.opening with mode := .fileName "\"self".toList.reverse } := rfl
    have parts : (directive "self").toList = "#include \"self".toList ++ ['"'] := rfl
    rw [parts]
    exact .of_read reached (.enter rfl)
  obtain ⟨_, ⟨_, bounded⟩, descent⟩ :=
    lex_limit (by decide : 2 ≤ 3) (some resolve) (directive "self")
  obtain ⟨deep, count⟩ := descent resolve rfl (fun _ _ => ⟨_, rfl⟩) (reaches {}) <| by
    rintro question - text supplied
    cases supplied
    exact reaches question.state
  exact ⟨deep, count, bounded⟩

end Sfz.Lexer
