import Sfz.Proofs.Lexer.Alike

/-! Including a file and writing its text in place of the directive.

The two scans part at the directive: one enters the file in a text of its own, with one text less
of room, and leaves it at its end; the other reads the same characters in place and then a line
feed. What an identifier, a comment or a tag at the end of the file comes to is the same both ways.
-/

set_option autoImplicit false

namespace Sfz.Lexer

def directive (file : String) : String :=
  "#include \"" ++ file ++ "\""

def Mode.inDirective : Mode → Bool
  | .directive _ | .gap _ | .fileName _ => true
  | .ready | .tag _ | .comment | .identifier _ => false

def Outcome.lexed : Outcome → Lexed
  | .ok state => { asked := state.asked.toList, result := .ok state.tokens.toList }
  | .error halt => { asked := halt.asked.toList, result := .error halt.error }

theorem lex_eq_lexed {ρ : Type} [Supplier ρ] (supplier? : Option ρ) (maxDepth : Nat)
    (text : String) :
    lex supplier? maxDepth text =
      (scan (entering supplier? maxDepth maxDepth) {} text.toList : Outcome).lexed := by
  rw [lex, run_eq_scan]
  cases (scan (entering supplier? maxDepth maxDepth) {} text.toList : Outcome) with
  | ok state => rfl
  | error halt => rfl

namespace Lexed

def lexemes? (lexed : Lexed) : Option (List Lexeme) :=
  lexed.result.toOption.map fun tokens => tokens.map Token.lexeme

def TooDeep (lexed : Lexed) : Prop :=
  ∃ error file limit, lexed.result = .error error ∧ error.fault = .includeTooDeep file limit

end Lexed

theorem Outcome.TooDeep.lexed {outcome : Outcome} (deep : outcome.TooDeep) :
    outcome.lexed.TooDeep := by
  obtain ⟨halt, file, limit, rfl, fault⟩ := deep
  exact ⟨halt.error, file, limit, rfl, fault⟩

theorem Outcome.Alike.lexed {former latter : List String} {first second : Outcome}
    (alike : first.Alike former latter second) :
    first.lexed.lexemes? = second.lexed.lexemes? ∧
      ∃ since, first.lexed.asked = former ++ since ∧ second.lexed.asked = latter ++ since := by
  cases alike with
  | ok states => exact ⟨congrArg some states.lexemes, states.asked⟩
  | error asked => exact ⟨rfl, asked⟩

section Directive

variable (enter : String → State → Outcome)

theorem read_fileName (state : State) {chars : List Char}
    (plain : ∀ c ∈ chars, c ≠ '"' ∧ c ≠ '\n') (past : List Char) :
    read enter { state with mode := .fileName past } chars =
      .ok { state with mode := .fileName (chars.reverse ++ past) } := by
  induction chars generalizing past with
  | nil => rfl
  | cons c rest ih =>
    obtain ⟨noMark, noFeed⟩ := plain c List.mem_cons_self
    have fed : State.feed { state with mode := .fileName past } c =
        .next { state with mode := .fileName (c :: past) } := by
      simp only [State.feed, State.count, State.dispatch, State.feedFileName, noMark, noFeed,
        if_false]
    rw [read, fed]
    simpa only [List.reverse_cons, List.append_assoc, List.singleton_append] using
      ih (fun other member => plain other (List.mem_cons_of_mem _ member)) (c :: past)

theorem scan_directive {state : State} (ready : state.mode = .ready) {file : String}
    (plain : ∀ c ∈ file.toList, c ≠ '"' ∧ c ≠ '\n') (rest : List Char) :
    scan enter state ((directive file).toList ++ rest) =
      enter file state >>= fun state => scan enter state rest := by
  have word : read enter state "#include \"".toList =
      .ok { state with mode := .fileName ['"'] } := by
    obtain ⟨mode, context, line, tokens, asked⟩ := state
    cases ready
    rfl
  have name : (file.toList.reverse ++ ['"']).reverse.dropWhile (· = '"') = file.toList := by
    rw [List.reverse_append, List.reverse_reverse]
    cases chars : file.toList with
    | nil => rfl
    | cons c others =>
      have noMark := (plain c (by rw [chars]; exact List.mem_cons_self)).1
      simp [noMark]
  have entered : State.feed { state with mode := .fileName (file.toList.reverse ++ ['"']) } '"' =
      .enter file state := by
    have fed (past : List Char) : State.feed { state with mode := .fileName past } '"' =
        .enter (String.ofList (past.reverse.dropWhile (· = '"'))) { state with mode := .ready } :=
      rfl
    rw [fed, name, String.ofList_toList, ← ready]
  have text : (directive file).toList ++ rest =
      "#include \"".toList ++ (file.toList ++ ('"' :: rest)) := by
    simp only [directive, String.toList_append, List.append_assoc]
    rfl
  rw [text, scan_append_of_read enter word,
    scan_append_of_read enter (read_fileName enter state plain ['"']), scan, entered]
  dsimp only
  cases enter file state with
  | ok state => rfl
  | error halt => rfl

end Directive

-- The end of an included text and a line feed in its place do alike. A tag that is not complete
-- fails both ways, though with different faults.
theorem resume_finish_alike {former latter : List String} {first second : State}
    (alike : first.Alike former latter second) (outside : first.mode.inDirective = false)
    (enter : String → State → Outcome) (file : String) (line : Nat) :
    Outcome.Alike former latter (resume file line first.finish) (read enter second ['\n']) := by
  have counted : first.Alike former latter (second.count '\n') := { alike with }
  have mode : (second.count '\n').mode = first.mode := alike.mode.symm
  rw [read, State.feed, State.dispatch, mode]
  unfold State.finish
  cases under : first.mode with
  | ready => exact .ok { counted with mode := rfl }
  | tag read => exact .error alike.asked
  | comment => exact .ok { counted with mode := rfl }
  | directive awaited => rw [under] at outside; cases outside
  | gap blank => rw [under] at outside; cases outside
  | fileName read => rw [under] at outside; cases outside
  | identifier read =>
    have completed := counted.complete read
    exact .ok { completed with mode := rfl }

variable {resolve : Resolver} {maxDepth : Nat} {file included front : String} {before : State}

/-- To enter a file where nothing is under way and not too many texts are open is to read its
characters and a line feed. -/
theorem entering_alike_read (resolved : resolve file = .ok included)
    (ready : before.mode = .ready)
    (outside : ∀ after,
      read (entering (some resolve) maxDepth maxDepth) before included.toList = .ok after →
        after.mode.inDirective = false)
    (shallow : ¬ (entering (some resolve) maxDepth maxDepth file before).TooDeep) :
    Outcome.Alike (before.asked.toList ++ [file]) before.asked.toList
      (entering (some resolve) maxDepth maxDepth file before)
      (read (entering (some resolve) maxDepth maxDepth) before
        (included.toList ++ ['\n'])) := by
  cases maxDepth with
  | zero => exact absurd ⟨_, file, 0, rfl, rfl⟩ shallow
  | succ room =>
    have supplied : Supplier.supply resolve before.asked file = .ok included := resolved
    rw [entering_of_supplied supplied, scan_eq_read] at shallow ⊢
    rw [read_append]
    have opened : State.Alike (before.asked.toList ++ [file]) before.asked.toList
        { before with asked := before.asked.push file }.opening before :=
      { mode := ready.symm
        context := rfl
        lexemes := rfl
        asked := ⟨[], by simp [State.opening], by simp⟩ }
    -- the file has one text less of room, which matters only if the scan goes too deep
    have inside := read_cut
      (fun file state => entering_cut (some resolve) (room + 1) (room + 1) (Nat.le_succ room)
        file state)
      (asked_entering (some resolve) (room + 1) (room + 1))
      { before with asked := before.asked.push file }.opening included.toList
    rcases inside with same | ⟨deep, _⟩
    · rw [same]
      have alike := read_alike
        (fun file => entering_alike (some resolve) (room + 1) (room + 1) file) opened
        included.toList
      generalize read (entering (some resolve) (room + 1) (room + 1))
        { before with asked := before.asked.push file }.opening included.toList = left at alike ⊢
      generalize
        read (entering (some resolve) (room + 1) (room + 1)) before included.toList = right
        at alike outside ⊢
      cases alike with
      | ok states =>
        exact resume_finish_alike states (states.mode ▸ outside _ rfl) _ file before.line
      | error asked => exact .error asked
    · exact absurd ((deep.bind _).resume _ _) shallow

/-- A text with a directive and the text with the file in its place, scanned with the same resolver
and limit, succeed or fail together, tell the same lexemes and ask for the same files but for the
file itself. -/
theorem lex_include (resolved : resolve file = .ok included)
    (plain : ∀ c ∈ file.toList, c ≠ '"' ∧ c ≠ '\n')
    (reached : read (entering (some resolve) maxDepth maxDepth) {} front.toList = .ok before)
    (ready : before.mode = .ready)
    (outside : ∀ after,
      read (entering (some resolve) maxDepth maxDepth) before included.toList = .ok after →
        after.mode.inDirective = false)
    (back : String)
    (shallow : ¬ (lex (some resolve) maxDepth (front ++ directive file ++ back)).TooDeep) :
    (lex (some resolve) maxDepth (front ++ directive file ++ back)).lexemes? =
        (lex (some resolve) maxDepth (front ++ included ++ "\n" ++ back)).lexemes? ∧
      ∃ since,
        (lex (some resolve) maxDepth (front ++ directive file ++ back)).asked =
            (lex (some resolve) maxDepth front).asked ++ [file] ++ since ∧
          (lex (some resolve) maxDepth (front ++ included ++ "\n" ++ back)).asked =
            (lex (some resolve) maxDepth front).asked ++ since := by
  have asked : (lex (some resolve) maxDepth front).asked = before.asked.toList := by
    have finished : before.finish = .ok before := by rw [State.finish, ready]
    rw [lex_eq_lexed, scan_eq_read, reached]
    change (Outcome.lexed before.finish).asked = _
    rw [finished]
    rfl
  have withDirective : (front ++ directive file ++ back).toList =
      front.toList ++ ((directive file).toList ++ back.toList) := by
    simp only [String.toList_append, List.append_assoc]
  have withText : (front ++ included ++ "\n" ++ back).toList =
      front.toList ++ ((included.toList ++ ['\n']) ++ back.toList) := by
    simp only [String.toList_append, List.append_assoc]
    rfl
  rw [lex_eq_lexed, withDirective, scan_append_of_read _ reached, scan_directive _ ready plain]
    at shallow ⊢
  rw [asked, lex_eq_lexed _ _ (front ++ included ++ "\n" ++ back), withText,
    scan_append_of_read _ reached, scan_append]
  have entered := entering_alike_read resolved ready outside fun deep =>
    shallow (deep.bind _).lexed
  exact (entered.bind fun states => scan_alike
    (fun file => entering_alike (some resolve) maxDepth maxDepth file) states back.toList).lexed

/-- A file that ends in the middle of a value, included in a text that goes on without a blank. -/
theorem lex_include_unfinished :
    (lex (some fun _ => .ok "key=6") 1
        ("<region>" ++ directive "kit" ++ "sample=kick 1")).lexemes? =
      (lex (some fun _ => .ok "key=6") 1
        ("<region>" ++ "key=6" ++ "\n" ++ "sample=kick 1")).lexemes? ∧
      ∃ since,
        (lex (some fun _ => .ok "key=6") 1
            ("<region>" ++ directive "kit" ++ "sample=kick 1")).asked =
          (lex (some fun _ => .ok "key=6") 1 "<region>").asked ++ ["kit"] ++ since ∧
        (lex (some fun _ => .ok "key=6") 1
            ("<region>" ++ "key=6" ++ "\n" ++ "sample=kick 1")).asked =
          (lex (some fun _ => .ok "key=6") 1 "<region>").asked ++ since := by
  have reached : read (entering (some fun _ => .ok "key=6") 1 1) {} "<region>".toList =
      .ok { tokens := #[⟨.tag "region", 0⟩] } := rfl
  have inside : (read (entering (some fun _ => .ok "key=6") 1 1)
      { tokens := #[⟨.tag "region", 0⟩] } "key=6".toList).toOption.all
        fun after => !after.mode.inDirective := by
    decide +kernel
  have succeeds : (lex (some fun _ => .ok "key=6") 1
      ("<region>" ++ directive "kit" ++ "sample=kick 1")).result.isOk := by
    decide +kernel
  have resolved : (fun _ => .ok "key=6" : Resolver) "kit" = .ok "key=6" := rfl
  have plain : "kit".toList.all fun c => c ≠ '"' ∧ c ≠ '\n' := by decide
  refine @lex_include _ 1 "kit" "key=6" "<region>" _ resolved
    (fun c member => of_decide_eq_true (List.all_eq_true.mp plain c member)) reached rfl ?_
    "sample=kick 1" ?_
  · intro after reached
    rw [reached] at inside
    simpa only [Except.toOption, Option.all_some, Bool.not_eq_true'] using inside
  · rintro ⟨error, file, limit, failed, _⟩
    simp [failed, Except.isOk, Except.toBool] at succeeds

end Sfz.Lexer
