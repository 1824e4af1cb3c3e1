import Sfz.Proofs.Lexer.Splice

/-! Where the tokens of a scan come from.

The course of a scan is told by its tokens, each with the place where it was complete: the open
files, with what was asked before them, which tell the text at hand, and what was read of that text.
A token bears the number of line feeds read of its own text, so that an included text counts from
its beginning and shifts no line of the text that includes it. A scan that fails has a place where
it stops, and the error tells the files open there and the line.
-/

set_option autoImplicit false

namespace Sfz.Lexer

structure Opened where
  file : String
  earlier : Array String

/-- How far a text is read. The open files stand innermost first; in the text that is scanned itself
there are none. -/
structure Place where
  within : List Opened
  past : List Char
  rest : List Char

def Place.line (place : Place) : Nat :=
  place.past.count '\n'

/-- A token and the place where it was complete. -/
structure Telling where
  place : Place
  token : Token

/-- The tokens of a scan, and where and why it stopped before its end. -/
structure Course where
  tellings : List Telling := []
  stop? : Option (Place × Fault) := none

namespace Course

def places (course : Course) : List Place :=
  course.tellings.map Telling.place ++ course.stop?.toList.map Prod.fst

def behind (course : Course) (tellings : List Telling) : Course :=
  { course with tellings := tellings ++ course.tellings }

end Course

def Place.tellings (place : Place) (before after : State) : List Telling :=
  (after.tokens.toList.drop before.tokens.size).map fun token => { place, token }

section Courses

variable (enter : String → State → Outcome) (inside : Place → String → State → Course)

/-- The course of a scan of a text that is read in part; `inside` tells that of an include
directive. -/
def scanCourse (within : List Opened) : List Char → State → List Char → Course
  | past, state, [] =>
    let place := { within, past, rest := [] }
    match state.finish with
    | .ok last => { tellings := place.tellings state last }
    | .error halt => { stop? := some (place, halt.error.fault) }
  | past, state, c :: rest =>
    let place := { within, past := past ++ [c], rest }
    let course :=
      match state.feed c with
      | .next next => scanCourse within (past ++ [c]) next rest
      | .enter file next =>
        match enter file next with
        | .ok after =>
          (scanCourse within (past ++ [c]) after rest).behind (inside place file next).tellings
        | .error _ => inside place file next
      | .fail fault _ => { stop? := some (place, fault) }
    course.behind (place.tellings state (state.feed c).state)

end Courses

section Entering

variable {ρ : Type} [Supplier ρ] (supplier? : Option ρ) (maxDepth : Nat)

def enteringCourse : Nat → Place → String → State → Course
  | 0 => fun place file _ => { stop? := some (place, .includeTooDeep file maxDepth) }
  | room + 1 => fun place file state =>
    match supplier? with
    | none => { stop? := some (place, .includeUnavailable) }
    | some supplier =>
      match Supplier.supply supplier state.asked file with
      | .error causes => { stop? := some (place, .includeFailed file causes) }
      | .ok text =>
        scanCourse (entering supplier? maxDepth room) (enteringCourse room)
          ({ file, earlier := state.asked } :: place.within) []
          { state with asked := state.asked.push file }.opening text.toList

def course (text : String) : Course :=
  scanCourse (entering supplier? maxDepth maxDepth) (enteringCourse supplier? maxDepth maxDepth)
    [] []
    {} text.toList

/-- The text at hand within open files: the answer to the question for the innermost one. -/
def source? (text : String) : List Opened → Option String
  | [] => some text
  | opened :: _ =>
    supplier?.bind fun supplier =>
      (Supplier.supply supplier opened.earlier opened.file).toOption

end Entering

namespace State

variable (state : State) (c : Char)

theorem state_feed :
    (state.feed c).state = (state.count c).extend (state.bare.dispatch c).state := by
  rw [feed_eq_extend]
  cases state.bare.dispatch c <;> rfl

theorem line_count : (state.count c).line = state.line + [c].count '\n' := by
  unfold count
  split
  · next feed => rw [feed]; rfl
  · next other => simp [other]

theorem line_feed : (state.feed c).state.line = state.line + [c].count '\n' := by
  rw [state_feed, ← line_count]
  rfl

def AddsOn (line : Nat) (state after : State) : Prop :=
  ∃ added : List Token, after.tokens.toList = state.tokens.toList ++ added ∧
    ∀ token ∈ added, token.line = line

theorem addsOn_feed : AddsOn (state.feed c).state.line state (state.feed c).state := by
  have counted : (state.count c).tokens = state.tokens := by
    unfold count
    split <;> rfl
  rw [state_feed, AddsOn, ← counted]
  refine ⟨_, Array.toList_append, ?_⟩
  simp [extend]

theorem addsOn_finish {last : State} (finished : state.finish = .ok last) :
    AddsOn state.line state last := by
  unfold finish at finished
  split at finished
  · next read under =>
    cases finished
    exact ⟨_, Array.toList_push .., by simp⟩
  · cases finished
  · cases finished
    exact ⟨[], by simp⟩

theorem halt_of_finish {halt : Halt} (finished : state.finish = .error halt) :
    state.halt halt.error.fault = .error halt := by
  unfold finish at finished
  split at finished
  · cases finished
  · cases finished
    rfl
  · cases finished

end State

theorem line_entering {ρ : Type} [Supplier ρ] {supplier? : Option ρ} {maxDepth room : Nat}
    {file : String} {state after : State} 
    (entered : entering supplier? maxDepth room file state = .ok after) :
    after.line = state.line := by
  cases room with
  | zero => cases entered
  | succ room =>
    cases supplier? with
    | none => cases entered
    | some supplier =>
      cases supplied : Supplier.supply supplier state.asked file with
      | error causes => simp [entering, supplied, State.halt] at entered
      | ok text =>
        rw [entering_of_supplied supplied] at entered
        cases scanned : (scan (entering (some supplier) maxDepth room)
            { state with asked := state.asked.push file }.opening text.toList : Outcome) with
        | ok last =>
          rw [scanned] at entered
          cases entered
          rfl
        | error halt =>
          rw [scanned] at entered
          cases entered

theorem line_read {ρ : Type} [Supplier ρ] {supplier? : Option ρ} {maxDepth room : Nat}
    {state last : State} {chars : List Char}
    (reached : read (entering supplier? maxDepth room) state chars = .ok last) :
    last.line = state.line + chars.count '\n' := by
  induction chars generalizing state with
  | nil =>
    cases reached
    rfl
  | cons c rest ih =>
    have fed := state.line_feed c
    rw [read] at reached
    rw [← List.singleton_append, List.count_append, ← Nat.add_assoc, ← fed]
    cases moved : state.feed c with
    | next next =>
      rw [moved] at reached
      exact ih reached
    | enter file next =>
      rw [moved] at reached
      cases entered : entering supplier? maxDepth room file next with
      | ok after =>
        dsimp only at reached
        rw [entered] at reached
        exact (ih reached).trans (congrArg (· + _) (line_entering entered))
      | error halt =>
        dsimp only at reached
        rw [entered] at reached
        cases reached
    | fail fault next =>
      rw [moved] at reached
      cases reached

/-- The base message, and then the open files from the innermost on. -/
theorem Error.description_eq (error : Error) :
    error.description =
      error.fault.message ++ String.join (error.within.map fun file => " in " ++ file) := by
  have rest (files : List String) (text : String) :
      files.foldl (fun text file => text ++ " in " ++ file) text =
        text ++ String.join (files.map fun file => " in " ++ file) := by
    induction files generalizing text with
    | nil => simp [String.join]
    | cons file others ih =>
      rw [List.foldl_cons, ih]
      simp [String.append_assoc]
  exact rest error.within error.fault.message

def Place.LiesIn (source : List Opened → Option String) (place : Place) : Prop :=
  source place.within = some (String.ofList (place.past ++ place.rest))

/-- What a course tells of a scan that begins in a state within open files. -/
structure Course.Recounts (source : List Opened → Option String) (within : List Opened)
    (start : State) (course : Course) (outcome : Outcome) : Prop where
  texts : ∀ place ∈ course.places, place.LiesIn source
  lines : ∀ telling ∈ course.tellings, telling.token.line = telling.place.line
  comes : match outcome with
    | .ok last => course.stop? = none ∧
        last.tokens.toList = start.tokens.toList ++ course.tellings.map Telling.token
    | .error halt => ∃ place, course.stop? = some (place, halt.error.fault) ∧
        place.within.map Opened.file = halt.error.within ++ within.map Opened.file ∧
          halt.error.line = place.line + 1

namespace Course.Recounts

variable {source : List Opened → Option String} {within : List Opened} {start middle : State}
  {outcome : Outcome}

theorem of_addsOn {place : Place} (here : place.LiesIn source)
    (adds : State.AddsOn place.line start middle) :
    Recounts source within start { tellings := place.tellings start middle } (.ok middle) := by
  obtain ⟨added, tokens, lines⟩ := adds
  have told : place.tellings start middle = added.map fun token => { place, token } := by
    rw [Place.tellings, tokens, ← Array.length_toList, List.drop_left]
  rw [told]
  refine ⟨?_, ?_, rfl, ?_⟩
  · simp only [places, Option.toList_none, List.map_nil, List.append_nil, List.map_map,
      List.mem_map]
    rintro _ ⟨token, _, rfl⟩
    exact here
  · simp only [List.mem_map]
    rintro _ ⟨token, member, rfl⟩
    exact lines token member
  · simp [tokens, Function.comp_def]

theorem halt {place : Place} (here : place.LiesIn source) (line : middle.line = place.line)
    (fault : Fault) :
    Recounts source place.within start { stop? := some (place, fault) } (middle.halt fault) where
  texts := by simpa [places] using here
  lines := by simp
  comes := ⟨place, rfl, rfl, congrArg (· + 1) line⟩

theorem behind {first second : Course} (former : Recounts source within start first (.ok middle))
    (latter : Recounts source within middle second outcome) :
    Recounts source within start (second.behind first.tellings) outcome where
  texts := by
    intro place member
    simp only [places, Course.behind, List.map_append, List.append_assoc, List.mem_append] at member
    rcases member with earlier | later
    · exact former.texts place (List.mem_append_left _ earlier)
    · exact latter.texts place (List.mem_append.mpr later)
  lines := List.forall_mem_append.mpr ⟨former.lines, latter.lines⟩
  comes := by
    obtain ⟨_, tokens⟩ := former.comes
    have comes := latter.comes
    cases outcome with
    | ok last =>
      refine ⟨comes.1, ?_⟩
      rw [comes.2, tokens, List.append_assoc, ← List.map_append]
      rfl
    | error halt => exact comes

theorem resume {course : Course} {opened : Opened}
    (recounts : Recounts source (opened :: within) start course outcome)
    (same : start.tokens = middle.tokens) (line : Nat) :
    Recounts source within middle course (Lexer.resume opened.file line outcome) where
  texts := recounts.texts
  lines := recounts.lines
  comes := by
    have comes := recounts.comes
    cases outcome with
    | ok last =>
      rw [same] at comes
      exact comes
    | error halt =>
      obtain ⟨place, stop, inner, line⟩ := comes
      exact ⟨place, stop, by simpa [Lexer.resume] using inner, line⟩

end Course.Recounts

section Scans

variable {source : List Opened → Option String}

theorem scanCourse_recounts {enter : String → State → Outcome}
    {inside : Place → String → State → Course}
    (enters : ∀ {place : Place} {state : State}, place.LiesIn source → state.line = place.line →
      ∀ file, (inside place file state).Recounts source place.within state (enter file state))
    (returns : ∀ {file : String} {state after : State}, enter file state = .ok after →
      after.line = state.line)
    {within : List Opened} {past chars : List Char} {state : State}
    (text : source within = some (String.ofList (past ++ chars)))
    (line : state.line = past.count '\n') :
    (scanCourse enter inside within past state chars).Recounts source within state
      (scan enter state chars) := by
  -- what carries the induction is that the line of the state is that of what was read
  induction chars generalizing past state with
  | nil =>
    let place : Place := { within, past, rest := [] }
    have here : place.LiesIn source := text
    have counted : state.line = place.line := line
    rw [scan, scanCourse]
    cases finished : state.finish with
    | ok last => exact .of_addsOn here (counted ▸ state.addsOn_finish finished)
    | error halt =>
      rw [← state.halt_of_finish finished]
      exact .halt here counted halt.error.fault
  | cons c rest ih =>
    let place : Place := { within, past := past ++ [c], rest }
    have here : place.LiesIn source := by simpa [Place.LiesIn, place] using text
    have fed : (state.feed c).state.line = place.line := by
      rw [state.line_feed, line, ← List.count_append]
      rfl
    have step : Course.Recounts source within state
        { tellings := place.tellings state (state.feed c).state } (.ok (state.feed c).state) :=
      .of_addsOn here (fed ▸ state.addsOn_feed c)
    have onward {next : State} (counted : next.line = place.line) :
        (scanCourse enter inside within (past ++ [c]) next rest).Recounts source within next
          (scan enter next rest) :=
      ih (by simpa using text) counted
    rw [scan, scanCourse]
    refine step.behind ?_
    cases moved : state.feed c with
    | next next =>
      rw [moved] at fed
      exact onward fed
    | enter file next =>
      rw [moved] at fed
      have entry : (inside place file next).Recounts source within next (enter file next) :=
        enters here fed file
      dsimp only
      cases entered : enter file next with
      | ok after =>
        rw [entered] at entry
        exact entry.behind (onward ((returns entered).trans fed))
      | error halt =>
        rw [entered] at entry
        exact entry
    | fail fault next =>
      rw [moved] at fed
      exact .halt here fed fault

end Scans

section Room

variable {ρ : Type} [Supplier ρ] (supplier? : Option ρ) (maxDepth : Nat) (text : String)

-- By induction on the room: an included text has one text less of it, and one file more is open.
theorem enteringCourse_recounts (room : Nat) {place : Place} {state : State}
    (here : place.LiesIn (source? supplier? text)) (line : state.line = place.line)
    (file : String) :
    (enteringCourse supplier? maxDepth room place file state).Recounts (source? supplier? text)
      place.within state (entering supplier? maxDepth room file state) := by
  induction room generalizing place state file with
  | zero => exact .halt here line _
  | succ room ih =>
    cases supplier? with
    | none => exact .halt here line _
    | some supplier =>
      cases supplied : Supplier.supply supplier state.asked file with
      | error causes =>
        simp only [enteringCourse, entering, supplied]
        refine .halt here ?_ _
        exact line
      | ok included =>
        rw [entering_of_supplied supplied]
        simp only [enteringCourse, supplied]
        have opened : source? (some supplier) text
            ({ file, earlier := state.asked } :: place.within) =
              some (String.ofList ([] ++ included.toList)) := by
          simp [source?, supplied, Except.toOption]
        have begun : { state with asked := state.asked.push file }.opening.line =
            List.count '\n' [] := rfl
        have inside := scanCourse_recounts (fun here line file => ih here line file)
          line_entering opened begun
        exact inside.resume (rfl : _ = state.tokens) state.line

theorem course_recounts :
    (course supplier? maxDepth text).Recounts (source? supplier? text) [] {}
      (scan (entering supplier? maxDepth maxDepth) {} text.toList) :=
  scanCourse_recounts
    (fun here line file => enteringCourse_recounts supplier? maxDepth text maxDepth here line file)
    line_entering (by simp [source?]) rfl

/-- The tokens of a scan bear the line feeds read of their own texts, whatever was included before
them, and an error tells the line and the open files of the text in which the scan stopped. -/
theorem lex_places :
    (∀ place ∈ (course supplier? maxDepth text).places,
      place.LiesIn (source? supplier? text)) ∧
    (∀ telling ∈ (course supplier? maxDepth text).tellings,
      telling.token.line = telling.place.line) ∧
    match (lex supplier? maxDepth text).result with
    | .ok tokens => (course supplier? maxDepth text).stop? = none ∧
        tokens = (course supplier? maxDepth text).tellings.map Telling.token
    | .error error => ∃ place,
        (course supplier? maxDepth text).stop? = some (place, error.fault) ∧
          error.line = place.line + 1 ∧
          error.description = error.fault.message ++
            String.join (place.within.map fun opened => " in " ++ opened.file) := by
  have recounts := course_recounts supplier? maxDepth text
  refine ⟨recounts.texts, recounts.lines, ?_⟩
  have comes := recounts.comes
  rw [lex_eq_lexed]
  cases scanned : (scan (entering supplier? maxDepth maxDepth) {} text.toList : Outcome) with
  | ok last =>
    rw [scanned] at comes
    exact ⟨comes.1, by simpa using comes.2⟩
  | error halt =>
    rw [scanned] at comes
    obtain ⟨place, stop, within, line⟩ := comes
    rw [List.map_nil, List.append_nil] at within
    refine ⟨place, stop, line, ?_⟩
    rw [Error.description_eq, ← within, List.map_map]
    rfl

/-- A file that is asked for twice and has another text the second time. -/
example :
    let handler : Handler :=
      { answer := fun earlier _ => .ok (if earlier.isEmpty then "<group>\n<region>" else "<x>") }
    (lex (some handler) 1 ("\n" ++ directive "kit" ++ directive "kit" ++ "<y>")).result.toOption =
      some [⟨.tag "group", 0⟩, ⟨.tag "region", 1⟩, ⟨.tag "x", 0⟩, ⟨.tag "y", 1⟩] := by
  decide +kernel

end Room

end Sfz.Lexer
