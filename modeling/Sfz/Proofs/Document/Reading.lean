import Sfz.Proofs.Document.Layout
import Sfz.Proofs.Lexer.Splice
import Sfz.Proofs.Lexer.Steps
import Sfz.Proofs.Section.Grouping
import Sfz.Proofs.Text.Blank

/-! Reading a document back from any of its texts.

Between the pairs the last value may still be under way, because only what follows shows where it
ends. So what is known between two pairs is either that nothing is under way or which value is,
with the blanks read behind it. In both cases the key of the next pair, the tag of the next section
and the end of the text find the lexemes of everything before.
-/

set_option autoImplicit false

namespace Sfz

open Lexer

namespace Layout

/-- Everything is read and nothing under way, in a place where a key may begin. -/
structure Rested (lexemes : List Lexeme) (view : View) : Prop where
  mode : view.mode = .ready
  context : view.context ≠ .string
  lexemes : view.lexemes = lexemes
  asked : view.asked = #[]

/-- Everything is read, and the last value is under way with blanks behind it. -/
structure Holding (value : String) (blanks : List Char) (lexemes : List Lexeme)
    (view : View) : Prop where
  mode : view.mode = .identifier (blanks.reverse ++ value.toList.reverse)
  string : blanks ≠ [] → view.context = .string
  lexemes : view.lexemes ++ [.identifier value] = lexemes
  asked : view.asked = #[]
  word : Word value
  inert : ValueType.ofKey value ≠ .string
  blanks : Blanks blanks

def Past (lexemes : List Lexeme) (view : View) : Prop :=
  Rested lexemes view ∨ ∃ value blanks, Holding value blanks lexemes view

def Parted (lexemes : List Lexeme) (view : View) : Prop :=
  Rested lexemes view ∨ ∃ value blanks, blanks ≠ [] ∧ Holding value blanks lexemes view

theorem Blanks.isWhiteSpace {blanks : List Char} (line : Blanks blanks) :
    ∀ c ∈ blanks, Text.isWhiteSpace c = true := fun c member =>
  Text.isWhiteSpace_of_isAsciiBlank (line c member).1

theorem Blanks.plain {blanks : List Char} (line : Blanks blanks) :
    ∀ c ∈ blanks, c ≠ '=' ∧ c ≠ '<' ∧ c ≠ '\n' := by
  intro c member
  obtain ⟨blank, noFeed⟩ := line c member
  refine ⟨?_, ?_, noFeed⟩
  · rintro rfl
    cases blank
  · rintro rfl
    cases blank

theorem Blanks.space {blanks : List Char} (line : Blanks blanks) : Space blanks := by
  induction blanks with
  | nil => exact .nil
  | cons c rest ih =>
    exact .blank (line c List.mem_cons_self).1
      (ih fun other member => line other (List.mem_cons_of_mem _ member))

theorem Word.trimEnd_append {text : String} (word : Word text) {blanks : List Char}
    (line : Blanks blanks) : Text.trimEnd (text.toList ++ blanks) = text.toList :=
  Text.trimEnd_append word.last line.isWhiteSpace

theorem Holding.trimEnd {value : String} {blanks : List Char} {lexemes : List Lexeme}
    {view : View} (holding : Holding value blanks lexemes view) :
    Text.trimEnd (blanks.reverse ++ value.toList.reverse).reverse = value.toList := by
  rw [List.reverse_append, List.reverse_reverse, List.reverse_reverse]
  exact holding.word.trimEnd_append holding.blanks

variable {enter : String → State → Outcome}

theorem leads_comment {view : View} (comment : view.mode = .comment) {body : List Char}
    (inside : Remark body) : view.Leads enter body view := by
  induction body with
  | nil => exact .nil
  | cons c rest ih =>
    obtain ⟨noFeed, noReturn⟩ := inside c List.mem_cons_self
    have stays : view.Step c { view with mode := .comment } :=
      View.step_comment comment (if_neg (not_or.mpr ⟨noFeed, noReturn⟩)).symm
    rw [← comment] at stays
    exact .cons stays (ih fun other member => inside other (List.mem_cons_of_mem _ member))

theorem leads_space {view : View} (ready : view.mode = .ready) {space : List Char}
    (spaced : Space space) : view.Leads enter space view := by
  induction spaced with
  | nil => exact .nil
  | blank blank _ ih => exact .cons (View.step_blank ready blank) ih
  | @comment body rest ending inside ends _ ih =>
    have commenting : View.mode { view with mode := .comment } = .comment := rfl
    have closes : View.Step { view with mode := .comment } ending { view with mode := .ready } :=
      View.step_comment commenting (if_pos ends).symm
    rw [← ready] at closes
    exact .cons (View.step_openComment ready)
      (.append (leads_comment commenting inside) (.cons closes ih))

theorem leads_continue {view : View} {read : List Char} (identifier : view.mode = .identifier read)
    {chars : List Char} (plain : ∀ c ∈ chars, c ≠ '=' ∧ c ≠ '<' ∧ c ≠ '\n')
    (blank : ∀ c ∈ chars, Text.isAsciiBlank c → view.context = .string) :
    view.Leads enter chars { view with mode := .identifier (chars.reverse ++ read) } := by
  induction chars generalizing view read with
  | nil =>
    rw [List.reverse_nil, List.nil_append, ← identifier]
    exact .nil
  | cons c rest ih =>
    have step := View.step_continue identifier (plain c List.mem_cons_self)
      (blank c List.mem_cons_self)
    rw [List.reverse_cons, List.append_assoc, List.singleton_append]
    exact .cons step (@ih { view with mode := .identifier (c :: read) } (c :: read) rfl
      (fun other member => plain other (List.mem_cons_of_mem _ member))
      (fun other member => blank other (List.mem_cons_of_mem _ member)))

theorem leads_word {view : View} (ready : view.mode = .ready) {text : String} (word : Word text)
    (solid : view.context ≠ .string → Solid text) :
    view.Leads enter text.toList { view with mode := .identifier text.toList.reverse } := by
  cases chars : text.toList with
  | nil => exact absurd (String.toList_eq_nil_iff.mp chars) word.nonempty
  | cons c rest =>
    have inside := word.inside
    have first := word.first
    rw [chars] at inside first
    obtain ⟨notBlank, begins⟩ := first c rfl
    have step := View.step_begin ready notBlank
      ⟨(inside c List.mem_cons_self).1, (inside c List.mem_cons_self).2.1⟩ begins
    have begun : View.mode { view with mode := .identifier [c] } = .identifier [c] := rfl
    rw [List.reverse_cons]
    refine .cons step (leads_continue begun
      (fun other member => inside other (List.mem_cons_of_mem _ member)) ?_)
    intro other member blank
    by_contra context
    have solid := solid context other (by rw [chars]; exact List.mem_cons_of_mem _ member)
    rw [solid] at blank
    cases blank

theorem Rested.leads_key {lexemes : List Lexeme} {view : View} (rested : Rested lexemes view)
    {key : String} (isKey : Key key) {blanks : List Char} (line : Blanks blanks) :
    view.Leads enter (key.toList ++ (blanks ++ ['=']))
      ((view.identify key.toList).emit .equal) := by
  have identifier : View.mode { view with mode := .identifier key.toList.reverse } =
      .identifier key.toList.reverse := rfl
  have trimmed : Text.trimEnd key.toList.reverse.reverse = key.toList := by
    rw [List.reverse_reverse, Text.trimEnd_eq_self isKey.last]
  refine (leads_word rested.mode isKey.toWord fun _ => isKey.solid).append ?_
  cases blanks with
  | nil =>
    have ends := View.step_endEqual identifier rested.context
    rw [trimmed] at ends
    exact ends.leads
  | cons blank rest =>
    have ends := View.step_endBlank identifier (line blank List.mem_cons_self).1
      (.inr rested.context)
    rw [trimmed] at ends
    have spaced := Blanks.space fun c member => line c (List.mem_cons_of_mem blank member)
    exact .cons ends (.append (leads_space rfl spaced) (View.step_equal rfl).leads)

theorem split_value_key {value key : String} (word : Word value) (isKey : Key key)
    {blanks : List Char} (some_blank : blanks ≠ []) (line : Blanks blanks) {gap : List Char}
    (gapLine : Blanks gap) :
    ∃ front, Text.splitLastBlank
        (Text.trimEnd (value.toList ++ (blanks ++ (key.toList ++ gap)))) =
          some (front, key.toList) ∧
      Text.trimEnd front = value.toList := by
  -- the blank that splits is the last one before the key
  obtain ⟨front, blank, rfl⟩ : ∃ front blank, blanks = front ++ [blank] :=
    ⟨_, _, (List.dropLast_append_getLast some_blank).symm⟩
  have regrouped : value.toList ++ ((front ++ [blank]) ++ (key.toList ++ gap)) =
      ((value.toList ++ front) ++ blank :: key.toList) ++ gap := by
    simp only [List.append_assoc, List.nil_append, List.cons_append]
  have last : ∀ c ∈ ((value.toList ++ front) ++ blank :: key.toList).getLast?,
      Text.isWhiteSpace c = false := by
    have nonempty : key.toList ≠ [] := fun empty =>
      isKey.nonempty (String.toList_eq_nil_iff.mp empty)
    have same : ((value.toList ++ front) ++ blank :: key.toList).getLast? =
        key.toList.getLast? := by
      rw [List.getLast?_append_cons, List.getLast?_cons]
      cases found : key.toList.getLast? with
      | none => exact absurd (List.getLast?_eq_none_iff.mp found) nonempty
      | some c => rfl
    rw [same]
    exact isKey.last
  refine ⟨value.toList ++ front, ?_, ?_⟩
  · rw [regrouped, Text.trimEnd_append last gapLine.isWhiteSpace]
    exact Text.splitLastBlank_append isKey.solid
      (line blank (List.mem_append_right _ List.mem_cons_self)).1 _
  · exact word.trimEnd_append fun c member => line c (List.mem_append_left _ member)

theorem Holding.leads_key {value : String} {blanks : List Char} {lexemes : List Lexeme}
    {view : View} (holding : Holding value blanks lexemes view) (some_blank : blanks ≠ [])
    {key : String} (isKey : Key key) {gap : List Char} (line : Blanks gap) :
    view.Leads enter (key.toList ++ (gap ++ ['=']))
      (((view.identify value.toList).identify key.toList).emit .equal) := by
  have string := holding.string some_blank
  have plain : ∀ c ∈ key.toList ++ gap, c ≠ '=' ∧ c ≠ '<' ∧ c ≠ '\n' := by
    intro c member
    rcases List.mem_append.mp member with inKey | inGap
    · exact isKey.inside c inKey
    · exact line.plain c inGap
  obtain ⟨front, split, trimmed⟩ :=
    split_value_key holding.word isKey some_blank holding.blanks line
  have goesOn : view.Leads enter (key.toList ++ gap) _ :=
    leads_continue holding.mode plain fun _ _ _ => string
  have reversed : value.toList ++ (blanks ++ (key.toList ++ gap)) =
      ((key.toList ++ gap).reverse ++ (blanks.reverse ++ value.toList.reverse)).reverse := by
    simp only [List.reverse_append, List.reverse_reverse, List.append_assoc]
  rw [reversed] at split
  generalize (key.toList ++ gap).reverse ++ (blanks.reverse ++ value.toList.reverse) = read
    at goesOn split
  have identifier : View.mode { view with mode := .identifier read } = .identifier read := rfl
  have ends := View.step_splitEqual identifier string split
  rw [trimmed] at ends
  rw [← List.append_assoc]
  exact goesOn.append ends.leads

theorem Parted.leads_pair {lexemes : List Lexeme} {view : View} (parted : Parted lexemes view)
    {key value : String} (isKey : Key key) (isValue : Value key value) {chars : List Char}
    (pair : Pair key value chars) :
    ∃ after, view.Leads enter chars after ∧ after.context = ValueType.ofKey key ∧
      Holding value [] (lexemes ++ Lexeme.ofPair (key, value)) after := by
  obtain ⟨blanks, space, line, spaced, rfl⟩ := pair
  -- whatever is under way, after the equals sign the view is the same but for what was read
  have assigned : ∃ middle, view.Leads enter (key.toList ++ (blanks ++ ['='])) middle ∧
      middle.mode = .ready ∧ middle.context = ValueType.ofKey key ∧
      middle.lexemes = lexemes ++ [.identifier key, .equal] ∧ middle.asked = #[] := by
    rcases parted with rested | ⟨last, before, some_blank, holding⟩
    · refine ⟨_, rested.leads_key isKey line, rfl, ?_, ?_, rested.asked⟩
      · exact congrArg ValueType.ofKey String.ofList_toList
      · simp only [View.identify, View.emit, String.ofList_toList, rested.lexemes,
          List.append_assoc, List.singleton_append]
    · refine ⟨_, holding.leads_key some_blank isKey line, rfl, ?_, ?_, holding.asked⟩
      · exact congrArg ValueType.ofKey String.ofList_toList
      · simp only [View.identify, View.emit, String.ofList_toList, ← holding.lexemes,
          List.append_assoc, List.cons_append, List.nil_append]
  obtain ⟨middle, leads, ready, context, read, asked⟩ := assigned
  have text : key.toList ++ (blanks ++ '=' :: (space ++ value.toList)) =
      (key.toList ++ (blanks ++ ['='])) ++ (space ++ value.toList) := by
    simp only [List.append_assoc, List.cons_append, List.nil_append]
  have solid : middle.context ≠ .string → Solid value := by
    rw [context]
    exact isValue.solid
  refine ⟨{ middle with mode := .identifier value.toList.reverse }, ?_, context, ?_⟩
  · rw [text]
    exact leads.append ((leads_space ready spaced).append (leads_word ready isValue.toWord solid))
  · exact
      { mode := rfl
        string := fun absurdity => absurd rfl absurdity
        lexemes := by simp only [read, Lexeme.ofPair, List.append_assoc, List.cons_append,
          List.nil_append]
        asked := asked
        word := isValue.toWord
        inert := isValue.inert
        blanks := fun c member => absurd member List.not_mem_nil }

theorem Holding.rested {value : String} {blanks : List Char} {lexemes : List Lexeme}
    {view : View} (holding : Holding value blanks lexemes view) :
    Rested lexemes (view.identify value.toList) where
  mode := rfl
  context := by
    simpa only [View.identify, String.ofList_toList] using holding.inert
  lexemes := by
    simpa only [View.identify, View.emit, String.ofList_toList] using holding.lexemes
  asked := holding.asked

theorem Holding.leads_end {value : String} {blanks : List Char} {lexemes : List Lexeme}
    {view : View} (holding : Holding value blanks lexemes view) {c : Char}
    (blank : Text.isAsciiBlank c) (ends : c = '\n' ∨ view.context ≠ .string) {space : List Char}
    (spaced : Space space) :
    ∃ after, view.Leads enter (c :: space) after ∧ Rested lexemes after := by
  have step := View.step_endBlank holding.mode blank ends
  rw [holding.trimEnd] at step
  exact ⟨_, .cons step (leads_space rfl spaced), holding.rested⟩

theorem Holding.leads_separator {key value : String} {lexemes : List Lexeme} {view : View}
    (holding : Holding value [] lexemes view) (context : view.context = ValueType.ofKey key)
    {separator : List Char} (separates : Separator key separator) :
    ∃ after, view.Leads enter separator after ∧ Past lexemes after ∧
      (separator ≠ [] → Parted lexemes after) := by
  -- blanks on the line of a value that may contain them go on with it
  have continued {blanks : List Char} (string : ValueType.ofKey key = .string)
      (line : Blanks blanks) :
      ∃ after, view.Leads enter blanks after ∧ Holding value blanks lexemes after := by
    refine ⟨_, leads_continue holding.mode line.plain fun _ _ _ => context.trans string, ?_⟩
    exact
      { mode := rfl
        string := fun _ => context.trans string
        lexemes := holding.lexemes
        asked := holding.asked
        word := holding.word
        inert := holding.inert
        blanks := line }
  cases separates with
  | none => exact ⟨view, .nil, .inr ⟨value, [], holding⟩, fun absurdity => absurd rfl absurdity⟩
  | space other blank spaced =>
    obtain ⟨after, leads, rested⟩ := holding.leads_end blank (.inr (context ▸ other)) spaced
    exact ⟨after, leads, .inl rested, fun _ => .inl rested⟩
  | line string line =>
    obtain ⟨after, leads, held⟩ := continued string line
    exact ⟨after, leads, .inr ⟨value, _, held⟩, fun some_blank =>
      .inr ⟨value, _, some_blank, held⟩⟩
  | lines string line spaced =>
    obtain ⟨middle, goesOn, held⟩ := continued string line
    obtain ⟨after, leads, rested⟩ := held.leads_end rfl (.inl rfl) spaced
    exact ⟨after, goesOn.append leads, .inl rested, fun _ => .inl rested⟩

theorem tag_plain {tag : String} {type : SectionType} (named : type.NamedBy tag) :
    ∀ c ∈ tag.toList, Text.isAsciiBlank c = false ∧ c ≠ '<' ∧ c ≠ '>' := by
  have letters : type.name.toList.all fun letter =>
      (Text.isAsciiBlank letter = false ∧ letter ≠ '<' ∧ letter ≠ '>') ∧
        (Text.isAsciiBlank letter.toUpper = false ∧ letter.toUpper ≠ '<' ∧
          letter.toUpper ≠ '>') := by
    cases type <;> decide +kernel
  rw [SectionType.NamedBy] at named
  generalize tag.toList = chars at named
  generalize type.name.toList = name at named letters
  induction named with
  | nil =>
    intro c member
    cases member
  | cons spelled _ ih =>
    rw [List.all_cons, Bool.and_eq_true, decide_eq_true_eq] at letters
    rw [List.forall_mem_cons]
    refine ⟨?_, ih letters.2⟩
    rcases spelled with rfl | rfl
    · exact letters.1.1
    · exact letters.1.2

theorem leads_inTag {view : View} {read : List Char} (tag : view.mode = .tag read)
    {chars : List Char}
    (plain : ∀ c ∈ chars, Text.isAsciiBlank c = false ∧ c ≠ '<' ∧ c ≠ '>') :
    view.Leads enter chars { view with mode := .tag (chars.reverse ++ read) } := by
  induction chars generalizing view read with
  | nil =>
    rw [List.reverse_nil, List.nil_append, ← tag]
    exact .nil
  | cons c rest ih =>
    obtain ⟨solid, others⟩ := plain c List.mem_cons_self
    rw [List.reverse_cons, List.append_assoc, List.singleton_append]
    exact .cons (View.step_inTag tag solid others)
      (@ih { view with mode := .tag (c :: read) } (c :: read) rfl
        fun other member => plain other (List.mem_cons_of_mem _ member))

theorem leads_closeTag {view : View} (tagging : view.mode = .tag []) {tag : String}
    {type : SectionType} (named : type.NamedBy tag) :
    view.Leads enter (tag.toList ++ ['>']) { view.emit (.tag tag) with mode := .ready } := by
  have inside : View.Leads enter _ tag.toList _ := leads_inTag tagging (tag_plain named)
  rw [List.append_nil] at inside
  have closing : View.mode { view with mode := .tag tag.toList.reverse } =
      .tag tag.toList.reverse := rfl
  have closes := View.step_closeTag closing
  rw [List.reverse_reverse, String.ofList_toList] at closes
  exact inside.append closes.leads

section Documents

variable (enter)

theorem Past.leads_pairs {pairs : List (String × String)} {chars : List Char}
    (written : Pairs pairs chars) {lexemes : List Lexeme} {view : View}
    (past : Past lexemes view) (parted : pairs ≠ [] → Parted lexemes view) :
    ∃ after, view.Leads enter chars after ∧
      Past (lexemes ++ pairs.flatMap Lexeme.ofPair) after := by
  -- what carries the induction is that the last value may be under way between two pairs
  induction written generalizing lexemes view with
  | nil =>
    refine ⟨view, .nil, ?_⟩
    rwa [List.flatMap_nil, List.append_nil]
  | cons isKey isValue pair separates apart _ ih =>
    obtain ⟨held, toHeld, context, holding⟩ :=
      (parted (List.cons_ne_nil _ _)).leads_pair isKey isValue pair
    obtain ⟨between, toBetween, past, parts⟩ := holding.leads_separator context separates
    obtain ⟨after, toAfter, done⟩ := ih past fun more => parts (apart more)
    refine ⟨after, toHeld.append (toBetween.append toAfter), ?_⟩
    rwa [List.flatMap_cons, ← List.append_assoc]

theorem Past.leads_tag {lexemes : List Lexeme} {view : View} (past : Past lexemes view)
    {tag : String} {type : SectionType} (named : type.NamedBy tag) :
    ∃ after, view.Leads enter ('<' :: (tag.toList ++ ['>'])) after ∧
      Rested (lexemes ++ [.tag tag]) after := by
  -- the tag itself ends the last value
  have opened : ∃ rest, Rested lexemes rest ∧ view.Step '<' { rest with mode := .tag [] } := by
    rcases past with rested | ⟨value, blanks, holding⟩
    · exact ⟨view, rested, View.step_openTag rested.mode⟩
    · have step := View.step_endTag holding.mode
      rw [holding.trimEnd] at step
      exact ⟨_, holding.rested, step⟩
  obtain ⟨rest, rested, opens⟩ := opened
  have tagging : View.mode { rest with mode := .tag [] } = .tag [] := rfl
  exact ⟨_, .cons opens (leads_closeTag tagging named),
    { mode := rfl
      context := rested.context
      lexemes := by simp only [View.emit, rested.lexemes]
      asked := rested.asked }⟩

theorem Past.leads_sections {parts : List Outline} {chars : List Char}
    (written : Sections parts chars) {lexemes : List Lexeme} {view : View}
    (past : Past lexemes view) :
    ∃ read after, Spells parts read ∧ view.Leads enter chars after ∧
      Past (lexemes ++ read) after := by
  induction written generalizing lexemes view with
  | nil =>
    refine ⟨[], view, .nil, .nil, ?_⟩
    rwa [List.append_nil]
  | @cons type tag pairs parts space body rest name spaced pairsWritten _ ih =>
    obtain ⟨tagged, toTagged, rested⟩ := past.leads_tag enter name
    obtain ⟨filled, toFilled, full⟩ :=
      Past.leads_pairs enter pairsWritten (.inl rested) fun _ => .inl rested
    obtain ⟨read, after, spells, toAfter, done⟩ := ih full
    have text : '<' :: (tag.toList ++ '>' :: (space ++ (body ++ rest))) =
        ('<' :: (tag.toList ++ ['>'])) ++ (space ++ (body ++ rest)) := by
      simp only [List.append_assoc, List.cons_append, List.nil_append]
    refine ⟨_, after, .cons (SectionType.ofTag?_of_namedBy name) spells, ?_, ?_⟩
    · rw [text]
      exact toTagged.append ((leads_space rested.mode spaced).append (toFilled.append toAfter))
    · simpa only [List.append_assoc, List.singleton_append, List.cons_append, List.nil_append]
        using done

end Documents

theorem Past.finish {lexemes : List Lexeme} {state : State} (past : Past lexemes state.view) :
    ∃ done, state.finish = .ok done ∧ done.lexemes = lexemes ∧ done.asked = #[] := by
  rcases past with rested | ⟨value, blanks, holding⟩
  · have mode : state.mode = .ready := rested.mode
    refine ⟨state, ?_, rested.lexemes, rested.asked⟩
    rw [State.finish, mode]
  · have mode : state.mode = _ := holding.mode
    have completed := View.view_complete state (blanks.reverse ++ value.toList.reverse)
    rw [holding.trimEnd] at completed
    refine ⟨state.complete (blanks.reverse ++ value.toList.reverse), ?_, ?_, ?_⟩
    · rw [State.finish, mode]
    · exact (congrArg View.lexemes completed).trans holding.rested.lexemes
    · exact (congrArg View.asked completed).trans holding.asked

theorem inDirective_of_read_lineFeed {state last : State}
    (fed : read enter state ['\n'] = .ok last) (inside : state.mode.inDirective = true) :
    last.mode.inDirective = true := by
  have mode : (state.count '\n').mode = state.mode := rfl
  rw [Lexer.read, State.feed, State.dispatch, mode] at fed
  cases under : state.mode with
  | directive awaited =>
    rw [under] at fed
    unfold State.feedDirective at fed
    cases awaited with
    | nil => cases fed
    | cons expected awaited =>
      by_cases differs : '\n' = expected
      · by_cases complete : awaited = []
        · simp only [differs, complete, ne_eq, not_true_eq_false, if_false, if_true] at fed
          cases fed
          rfl
        · simp only [differs, complete, ne_eq, not_true_eq_false, if_false] at fed
          cases fed
          rfl
      · simp only [ne_eq, differs, not_false_eq_true, if_true] at fed
        cases fed
  | gap blank =>
    rw [under] at fed
    cases fed
    rfl
  | fileName read =>
    rw [under] at fed
    cases fed
  | _ =>
    rw [under] at inside
    cases inside

-- A line feed at the end completes what the end of the text would complete.
theorem finish_of_lineFeed {state last : State} (fed : read enter state ['\n'] = .ok last)
    (outside : last.mode.inDirective = false) :
    last.mode = .ready ∧
      ∃ done, state.finish = .ok done ∧ done.lexemes = last.lexemes ∧ done.asked = last.asked := by
  have before : state.mode.inDirective = false := by
    by_contra inside
    rw [Bool.not_eq_false] at inside
    rw [inDirective_of_read_lineFeed fed inside] at outside
    cases outside
  have self : state.Alike [] [] state :=
    { mode := rfl, context := rfl, lexemes := rfl, asked := ⟨state.asked.toList, rfl, rfl⟩ }
  have alike := resume_finish_alike self before enter "" 0
  rw [fed] at alike
  cases finished : state.finish with
  | error halt =>
    rw [finished] at alike
    cases alike
  | ok done =>
    rw [finished] at alike
    cases alike with
    | ok states =>
      obtain ⟨since, here, there⟩ := states.asked
      have asked : done.asked = last.asked := Array.toList_inj.mp (here.trans there.symm)
      exact ⟨states.mode.symm, done, rfl, states.lexemes, asked⟩

theorem Past.finish_of_lineFeed {lexemes : List Lexeme} {state last : State}
    (fed : read enter state ['\n'] = .ok last) (past : Past lexemes last.view) :
    ∃ done, state.finish = .ok done ∧ done.lexemes = lexemes ∧ done.asked = #[] := by
  have outside : last.mode.inDirective = false := by
    rcases past with rested | ⟨value, blanks, holding⟩
    · exact congrArg Mode.inDirective rested.mode
    · exact congrArg Mode.inDirective holding.mode
  obtain ⟨ready, done, finished, same, asked⟩ := Layout.finish_of_lineFeed fed outside
  rcases past with rested | ⟨value, blanks, holding⟩
  · exact ⟨done, finished, same.trans rested.lexemes, asked.trans rested.asked⟩
  · cases ready.symm.trans holding.mode

end Layout

/-- Every text of a document is scanned and grouped back into the document, and asks for no file. -/
theorem Layout.Document.read_back {parts : List Outline} {text : String}
    (written : Layout.Document parts text) {ρ : Type} [Supplier ρ] (supplier? : Option ρ)
    (maxDepth : Nat) :
    ∃ tokens sections,
      lex supplier? maxDepth text = { asked := [], result := .ok tokens } ∧
      Section.ofTokens tokens = .ok sections ∧ sections.map Section.outline = parts := by
  obtain ⟨space, rest, spaced, inSections, chars⟩ := written
  have start : Layout.Rested [] (State.view {}) :=
    { mode := rfl, context := by decide, lexemes := rfl, asked := rfl }
  obtain ⟨lexemes, after, spells, leads, past⟩ := Layout.Past.leads_sections
    (entering supplier? maxDepth maxDepth) inSections (.inl start)
  obtain ⟨last, reached, rfl⟩ := (Layout.leads_space start.mode spaced).append leads {} rfl
  have ended : ∃ state done,
      read (entering supplier? maxDepth maxDepth) {} text.toList = .ok state ∧
      state.finish = .ok done ∧ done.lexemes = lexemes ∧ done.asked = #[] := by
    rcases chars with chars | chars
    · rw [← chars] at reached
      obtain ⟨done, finished, facts⟩ := past.finish
      exact ⟨last, done, reached, finished, facts⟩
    · rw [← chars, read_append] at reached
      cases front : read (entering supplier? maxDepth maxDepth) {} text.toList with
      | error halt =>
        rw [front] at reached
        cases reached
      | ok state =>
        rw [front] at reached
        obtain ⟨done, finished, facts⟩ := past.finish_of_lineFeed reached
        exact ⟨state, done, rfl, finished, facts⟩
  obtain ⟨state, done, reached, finished, rfl, asked⟩ := ended
  obtain ⟨sections, grouped, outlines⟩ := Section.ofTokens_spells spells
  refine ⟨done.tokens.toList, sections, ?_, grouped, outlines⟩
  rw [lex_eq_lexed, scan_eq_read, reached]
  change Outcome.lexed state.finish = _
  rw [finished, Outcome.lexed, asked]

/-- A value with a blank and the next key on one line, and a comment at the end. -/
theorem read_back_kick :
    ∃ tokens sections,
      lex none 8 "<Region>sample=kick 1.wav key= 60 / end" =
        { asked := [], result := .ok tokens } ∧
      Section.ofTokens tokens = .ok sections ∧
      sections.map Section.outline =
        [⟨.region, [("sample", "kick 1.wav"), ("key", "60")]⟩] := by
  have key : Layout.Pairs [("key", "60")] "key= 60 / end\n".toList := by
    have space : Layout.Space "/ end\n".toList :=
      @Layout.Space.comment " end".toList [] '\n' (by decide) (.inl rfl) .nil
    exact @Layout.Pairs.cons "key" "60" [] "key= 60".toList " / end\n".toList []
      (by decide +kernel) (by decide +kernel)
      ⟨[], [' '], by decide, .blank rfl .nil, by decide⟩ (.space (by decide +kernel) rfl space)
      (fun absurdity => absurd rfl absurdity) .nil
  have sample : Layout.Pairs [("sample", "kick 1.wav"), ("key", "60")]
      "sample=kick 1.wav key= 60 / end\n".toList :=
    @Layout.Pairs.cons "sample" "kick 1.wav" _ "sample=kick 1.wav".toList [' '] _
      (by decide +kernel) (by decide +kernel)
      ⟨[], [], by decide, .nil, by decide⟩ (.line (by decide +kernel) (by decide))
      (fun _ => List.cons_ne_nil _ _) key
  have sections : Layout.Sections [⟨.region, [("sample", "kick 1.wav"), ("key", "60")]⟩]
      "<Region>sample=kick 1.wav key= 60 / end\n".toList :=
    @Layout.Sections.cons .region "Region" _ [] [] _ [] (by decide +kernel) .nil sample .nil
  have written : Layout.Document [⟨.region, [("sample", "kick 1.wav"), ("key", "60")]⟩]
      "<Region>sample=kick 1.wav key= 60 / end" :=
    ⟨[], _, .nil, sections, .inr (by decide)⟩
  exact written.read_back none 8

end Sfz
