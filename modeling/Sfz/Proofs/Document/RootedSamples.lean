import Sfz.Proofs.Document.Reading
import Sfz.Proofs.Instrument.Slots
import Sfz.Proofs.SamplePath.Spelling

/-! Samples that are named from a root.

A reference that starts at a root stands on its own, whatever the default path is. It must get
past the scanner first, and where a value is expected a slash begins a comment. So a root that is
written as a slash is lost, while a backslash or a drive letter is not.
-/

set_option autoImplicit false

namespace Sfz

open Lexer

namespace SamplePath

/-- A line's worth of text that names a file from a root, once backslashes are read as `/`. -/
structure Rooted (sample : String) : Prop where
  root : ['/'] <+: (normalize sample).toList ∨
    ∃ drive : Char, drive.isAlpha ∧ [drive, ':', '/'] <+: (normalize sample).toList
  inside : ∀ c ∈ sample.toList, c ≠ '=' ∧ c ≠ '<' ∧ c ≠ '\n'
  last : ∀ c ∈ sample.toList.getLast?, Text.isWhiteSpace c = false

theorem Rooted.of_slash {sample : String} (root : ['/'] <+: (normalize sample).toList)
    (inside : sample.toList.all (fun c => c ≠ '=' ∧ c ≠ '<' ∧ c ≠ '\n') = true)
    (last : sample.toList.getLast?.all (fun c => Text.isWhiteSpace c = false) = true) :
    Rooted sample := by
  simp only [List.all_eq_true, Option.all_eq_true, decide_eq_true_eq] at inside last
  exact ⟨.inl root, inside, last⟩

theorem Rooted.isAbsolute {sample : String} (rooted : Rooted sample) :
    isAbsolute (normalize sample) = true :=
  isAbsolute_normalize_iff.mpr rooted.root

theorem Rooted.combine {sample : String} (rooted : Rooted sample) (defaultPath : String) :
    combine defaultPath sample = normalize sample :=
  if_pos rooted.isAbsolute

theorem Rooted.spelling {sample : String} (rooted : Rooted sample) :
    (∃ rest, sample.toList = '/' :: rest) ∨ (∃ rest, sample.toList = '\\' :: rest) ∨
      ∃ drive rest, drive.isAlpha ∧ sample.toList = drive :: ':' :: rest := by
  have read {c letter : Char} (spelled : (if c = '\\' then '/' else c) = letter)
      (other : letter ≠ '/') : c = letter := by
    split at spelled
    · exact absurd spelled.symm other
    · exact spelled
  rcases rooted.root with ⟨rest, root⟩ | ⟨drive, letter, rest, root⟩
  · rw [toList_normalize] at root
    obtain ⟨c, others, chars, slash, -⟩ := List.map_eq_cons_iff.mp root.symm
    by_cases back : c = '\\'
    · exact .inr (.inl ⟨others, back ▸ chars⟩)
    · rw [if_neg back] at slash
      exact .inl ⟨others, slash ▸ chars⟩
  · rw [toList_normalize] at root
    obtain ⟨c, _, chars, first, more⟩ := List.map_eq_cons_iff.mp root.symm
    obtain ⟨colon, others, rfl, second, -⟩ := List.map_eq_cons_iff.mp more
    have notSlash : drive ≠ '/' := by
      rintro rfl
      cases letter
    rw [read first notSlash, read second (by decide)] at chars
    exact .inr (.inr ⟨drive, others, letter, chars⟩)

theorem Rooted.value {sample : String} (rooted : Rooted sample)
    (noSlash : sample.toList.head? ≠ some '/') : Layout.Value "sample" sample := by
  have first : ∃ c rest, sample.toList = c :: rest ∧ Text.isAsciiBlank c = false ∧ c ≠ '/' ∧
      c ≠ '#' ∧ (c = '\\' ∨ rest.head? = some ':') := by
    rcases rooted.spelling with ⟨rest, chars⟩ | ⟨rest, chars⟩ | ⟨drive, rest, letter, chars⟩
    · rw [chars] at noSlash
      exact absurd rfl noSlash
    · exact ⟨'\\', rest, chars, by decide, by decide, by decide, .inl rfl⟩
    · refine ⟨drive, ':' :: rest, chars, ?_, ?_, ?_, .inr rfl⟩
      · exact Text.isAsciiBlank_of_isAlpha letter
      · rintro rfl
        cases letter
      · rintro rfl
        cases letter
  obtain ⟨c, rest, chars, solid, slash, hash, mark⟩ := first
  refine { toWord := ⟨?_, rooted.inside, ?_, rooted.last⟩, solid := ?_, inert := ?_ }
  · rintro rfl
    cases chars
  · intro other member
    rw [chars] at member
    cases member
    exact ⟨solid, slash, hash⟩
  · intro other
    exact absurd (by decide) other
  · intro string
    have names := ValueType.ofKey_eq_string_iff.mp string
    simp only [List.mem_cons, List.not_mem_nil, or_false] at names
    rcases names with rfl | rfl | rfl <;> cases chars <;> revert mark <;> decide

end SamplePath

namespace Layout

/-- The beginning of a text with a default path and one region, up to the name of its sample. -/
def beforeSample (path : String) : String :=
  "<control> default_path=" ++ path ++ "\n<region> sample="

def lexemesBeforeSample (path : String) : List Lexeme :=
  [.tag "control", .identifier "default_path", .equal, .identifier path, .tag "region",
    .identifier "sample", .equal]

theorem toList_beforeSample (path : String) :
    (beforeSample path).toList =
      '<' :: ("control".toList ++ ['>']) ++ ([' '] ++
        ("default_path".toList ++ ([] ++ '=' :: ([] ++ path.toList)) ++ (['\n'] ++
          ('<' :: ("region".toList ++ ['>']) ++ ([' '] ++
            ("sample".toList ++ ([] ++ ['=']))))))) := by
  have opening : "<control> default_path=".toList =
      '<' :: ("control".toList ++ ['>']) ++ ([' '] ++ ("default_path".toList ++ ['='])) := by
    decide
  have between : "\n<region> sample=".toList =
      '\n' :: ('<' :: ("region".toList ++ ['>']) ++ ([' '] ++ ("sample".toList ++ ['=']))) := by
    decide
  -- no rewriting here: a search for an append would look into the literals
  have parts : (beforeSample path).toList =
      "<control> default_path=".toList ++ path.toList ++ "\n<region> sample=".toList :=
    String.toList_append.trans (congrArg (· ++ "\n<region> sample=".toList) String.toList_append)
  rw [parts, opening, between]
  simp only [List.append_assoc, List.cons_append, List.nil_append]

section Reading

variable {enter : String → State → Outcome}

theorem leads_beforeSample {path : String} (isValue : Value "default_path" path) :
    ∃ view : View, View.Leads enter (State.view {}) (beforeSample path).toList view ∧
      view.mode = .ready ∧ view.context = .string ∧ view.lexemes = lexemesBeforeSample path := by
  have start : Rested [] (State.view {}) :=
    { mode := rfl, context := by decide, lexemes := rfl, asked := rfl }
  have key : Key "default_path" := by decide +kernel
  have sample : Key "sample" := by decide +kernel
  have blank : Space [' '] := .blank rfl .nil
  have pair : Pair "default_path" path
      ("default_path".toList ++ ([] ++ '=' :: ([] ++ path.toList))) :=
    ⟨[], [], (nofun), .nil, rfl⟩
  obtain ⟨_, toControl, control⟩ := Past.leads_tag enter (.inl start)
    (show SectionType.control.NamedBy "control" by decide +kernel)
  obtain ⟨_, toPath, _, holding⟩ := Parted.leads_pair (.inl control) key isValue pair
  have ends : ∃ after, View.Leads enter _ ['\n'] after ∧ Rested _ after :=
    holding.leads_end rfl (.inl rfl) .nil
  obtain ⟨_, toLine, ended⟩ := ends
  obtain ⟨opened, toRegion, region⟩ := Past.leads_tag enter (.inl ended)
    (show SectionType.region.NamedBy "region" by decide +kernel)
  have toSample : View.Leads enter _ ("sample".toList ++ ([] ++ ['='])) _ :=
    region.leads_key sample nofun
  refine ⟨(opened.identify "sample".toList).emit .equal, ?_, rfl, ?_, ?_⟩
  · rw [toList_beforeSample]
    exact toControl.append ((leads_space control.mode blank).append (toPath.append (toLine.append
      (toRegion.append ((leads_space region.mode blank).append toSample)))))
  · change ValueType.ofKey (String.ofList "sample".toList) = .string
    rw [String.ofList_toList]
    decide
  · simp [View.emit, View.identify, region.lexemes, lexemesBeforeSample, Lexeme.ofPair]

-- A value that may contain blanks ends with its line.
theorem leads_valueLine {view : View} (ready : view.mode = .ready)
    (string : view.context = .string) {text : String} (word : Word text) :
    view.Leads enter (text.toList ++ ['\n']) (view.identify text.toList) := by
  have under : View.mode { view with mode := .identifier text.toList.reverse } =
      .identifier text.toList.reverse := rfl
  have ends := @View.step_endBlank _ _ under '\n' rfl (.inl rfl)
  rw [List.reverse_reverse, Text.trimEnd_eq_self word.last] at ends
  exact (leads_word ready word fun other => absurd string other).append ends.leads

theorem scan_of_leads {state : State} {chars : List Char} {after : View}
    (leads : state.view.Leads enter chars after) (ready : after.mode = .ready) :
    ∃ done, scan enter state chars = .ok done ∧ done.lexemes = after.lexemes := by
  obtain ⟨done, reads, view⟩ := leads state rfl
  have mode : done.mode = .ready := (congrArg View.mode view).trans ready
  refine ⟨done, ?_, congrArg View.lexemes view⟩
  rw [scan_eq_read, reads]
  change done.finish = _
  rw [State.finish, mode]

theorem scan_word {state : State} (ready : state.mode = .ready) (string : state.context = .string)
    {text : String} (word : Word text) :
    ∃ done, scan enter state (text.toList ++ ['\n']) = .ok done ∧
      done.lexemes = state.lexemes ++ [.identifier text] := by
  obtain ⟨done, scanned, lexemes⟩ := scan_of_leads (leads_valueLine ready string word) rfl
  rw [View.identify, String.ofList_toList] at lexemes
  exact ⟨done, scanned, lexemes⟩

/-- A part of a line that the scanner may take for the value: what is left behind a blank, or all
of the line if the scanner is ready for it. -/
structure Remnant (ready : Bool) (chars : List Char) (value : String) : Prop where
  word : Word value
  behind : ∃ front, chars = front ++ value.toList ∧ (front = [] → ready = true) ∧
    ∀ c ∈ front.getLast?, Text.isAsciiBlank c

theorem Remnant.cons {ready : Bool} {chars : List Char} {value : String}
    (remnant : Remnant ready chars value) {c : Char} (blank : ready = true → Text.isAsciiBlank c)
    (before : Bool) : Remnant before (c :: chars) value := by
  obtain ⟨front, rfl, whole, last⟩ := remnant.behind
  refine ⟨remnant.word, c :: front, rfl, nofun, ?_⟩
  intro other member
  cases front with
  | nil =>
    cases member
    exact blank (whole rfl)
  | cons first rest => exact last other (by rwa [List.getLast?_cons_cons] at member)

def AddsRemnant (state : State) (chars : List Char) (done : State) : Prop :=
  done.lexemes = state.lexemes ∨
    ∃ value, Remnant (state.mode = .ready) chars value ∧
      done.lexemes = state.lexemes ++ [.identifier value]

-- A character that is skipped is a blank, or it leads into a comment.
theorem AddsRemnant.cons {state next done : State} {c : Char} {rest : List Char}
    (same : next.lexemes = state.lexemes) (blank : next.mode = .ready → Text.isAsciiBlank c)
    (adds : AddsRemnant next rest done) : AddsRemnant state (c :: rest) done := by
  rw [AddsRemnant, same] at adds
  refine adds.imp id ?_
  rintro ⟨value, remnant, added⟩
  exact ⟨value, remnant.cons (fun ready => blank (of_decide_eq_true ready)) _, added⟩

theorem feed_inDirective {state next : State} (inside : state.mode.inDirective = true) {c : Char}
    (fed : state.feed c = .next next) :
    next.mode.inDirective = true ∧ next.lexemes = state.lexemes := by
  have counted : (state.count c).lexemes = state.lexemes := congrArg View.lexemes
    (View.view_count state c)
  have mode : (state.count c).mode = state.mode := congrArg View.mode (View.view_count state c)
  rw [State.feed, State.dispatch, mode] at fed
  cases under : state.mode with
  | directive awaited =>
    rw [under] at fed
    unfold State.feedDirective at fed
    grind [State.lexemes, Mode.inDirective]
  | gap blank =>
    rw [under] at fed
    unfold State.feedGap at fed
    grind [State.lexemes, Mode.inDirective]
  | fileName read =>
    rw [under] at fed
    unfold State.feedFileName at fed
    grind [State.lexemes, Mode.inDirective]
  | _ =>
    rw [under] at inside
    cases inside

section Scan

variable (closed : ∀ file state, ∃ halt, enter file state = .error halt)
include closed

-- A directive that leads nowhere leaves the lexemes as they are, if it is not an error.
theorem lexemes_scan_directive {state done : State} (inside : state.mode.inDirective = true)
    {chars : List Char} (scanned : scan enter state chars = .ok done) :
    done.lexemes = state.lexemes := by
  induction chars generalizing state with
  | nil =>
    rw [scan, State.finish] at scanned
    cases under : state.mode with
    | directive _ | gap _ | fileName _ =>
      rw [under] at scanned
      cases scanned
      rfl
    | _ =>
      rw [under] at inside
      cases inside
  | cons c rest ih =>
    rw [scan] at scanned
    cases fed : state.feed c with
    | next next =>
      rw [fed] at scanned
      obtain ⟨goesOn, same⟩ := feed_inDirective inside fed
      exact (ih goesOn scanned).trans same
    | enter file next =>
      obtain ⟨halt, fails⟩ := closed file next
      rw [fed] at scanned
      dsimp only at scanned
      rw [fails] at scanned
      cases scanned
    | fail fault next =>
      rw [fed] at scanned
      cases scanned

-- By induction on the line. A comment may be under way, since one that ends gives way to a value.
theorem addsRemnant_of_scan {chars : List Char}
    (plain : ∀ c ∈ chars, c ≠ '=' ∧ c ≠ '<' ∧ c ≠ '\n')
    (last : ∀ c ∈ chars.getLast?, Text.isWhiteSpace c = false) {state done : State}
    (mode : state.mode = .ready ∨ state.mode = .comment) (string : state.context = .string)
    (scanned : scan enter state (chars ++ ['\n']) = .ok done) :
    AddsRemnant state chars done := by
  induction chars generalizing state with
  | nil =>
    have step : state.view.Step '\n' { state.view with mode := .ready } := by
      rcases mode with ready | comment
      · have same : { state.view with mode := .ready } = state.view := by rw [← ready]; rfl
        rw [same]
        exact View.step_blank ready rfl
      · exact View.step_comment comment rfl
    obtain ⟨_, reached, kept⟩ := scan_of_leads step.leads rfl
    rw [List.nil_append, reached] at scanned
    cases scanned
    exact .inl kept
  | cons c rest ih =>
    have plainRest := fun other member => plain other (List.mem_cons_of_mem c member)
    have lastRest : ∀ other ∈ rest.getLast?, Text.isWhiteSpace other = false := by
      cases rest with
      | nil => exact nofun
      | cons first rest => rwa [List.getLast?_cons_cons] at last
    -- after a character that is skipped the rest of the line stands in the same place
    have skipped {after : Mode} (step : state.view.Step c { state.view with mode := after })
        (skips : after = .ready ∧ Text.isAsciiBlank c ∨ after = .comment) :
        AddsRemnant state (c :: rest) done := by
      obtain ⟨next, fed, view⟩ := step state rfl
      have mode : next.mode = after := congrArg View.mode view
      have context : next.context = state.context := congrArg View.context view
      rw [List.cons_append, scan, fed] at scanned
      rw [← mode] at skips
      have adds := ih plainRest lastRest (skips.imp And.left id) (context.trans string) scanned
      refine adds.cons (congrArg View.lexemes view) fun ready => ?_
      rcases skips with ⟨-, blank⟩ | comment
      · exact blank
      · cases ready.symm.trans comment
    rcases mode with ready | comment
    · by_cases blank : Text.isAsciiBlank c
      · have step : state.view.Step c { state.view with mode := state.mode } :=
          View.step_blank ready blank
        exact skipped (ready ▸ step) (.inl ⟨rfl, blank⟩)
      by_cases slash : c = '/'
      · exact skipped (slash ▸ View.step_openComment ready) (.inr rfl)
      by_cases hash : c = '#'
      · have fed : state.feed c = .next { state with mode := .directive includeWord } := by
          subst hash
          have same : state.count '#' = state := rfl
          rw [State.feed, same, State.dispatch, ready]
          rfl
        rw [List.cons_append, scan, fed] at scanned
        have kept := @lexemes_scan_directive _ closed
          { state with mode := .directive includeWord } done rfl _ scanned
        exact .inl kept
      · obtain ⟨text, chars⟩ : ∃ text : String, text.toList = c :: rest :=
          ⟨_, String.toList_ofList⟩
        rw [← chars] at plain last scanned ⊢
        have word : Word text := by
          refine ⟨?_, plain, ?_, last⟩
          · rintro rfl
            cases chars
          · rw [chars]
            rintro _ ⟨⟩
            exact ⟨Bool.eq_false_iff.mpr blank, slash, hash⟩
        obtain ⟨_, reached, added⟩ := scan_word ready string word
        rw [reached] at scanned
        cases scanned
        exact .inr ⟨text, ⟨word, [], rfl, fun _ => decide_eq_true ready, nofun⟩, added⟩
    · by_cases ends : c = '\r'
      · exact skipped (View.step_comment comment (if_pos (.inr ends)).symm)
          (.inl ⟨rfl, ends ▸ rfl⟩)
      · have inside : ¬ (c = '\n' ∨ c = '\r') :=
          not_or.mpr ⟨(plain c List.mem_cons_self).2.2, ends⟩
        exact skipped (View.step_comment comment (if_neg inside).symm) (.inr rfl)

end Scan

end Reading

end Layout

namespace Section

theorem ofTokens_lexemesBeforeSample {path : String} {tokens : List Token}
    (spelled : tokens.map Token.lexeme = Layout.lexemesBeforeSample path) :
    ∃ line, ofTokens tokens = .error { fault := .missingValue "sample", line } := by
  obtain ⟨_, _, rfl, afterControl⟩ := Token.exists_of_map_eq_cons spelled
  obtain ⟨_, _, rfl, afterKey⟩ := Token.exists_of_map_eq_cons afterControl
  obtain ⟨_, _, rfl, afterEqual⟩ := Token.exists_of_map_eq_cons afterKey
  obtain ⟨_, _, rfl, afterPath⟩ := Token.exists_of_map_eq_cons afterEqual
  obtain ⟨_, _, rfl, afterRegion⟩ := Token.exists_of_map_eq_cons afterPath
  obtain ⟨line, _, rfl, afterSample⟩ := Token.exists_of_map_eq_cons afterRegion
  obtain ⟨_, _, rfl, atEnd⟩ := Token.exists_of_map_eq_cons afterSample
  obtain rfl := List.map_eq_nil_iff.mp atEnd
  exact ⟨line + 1, rfl⟩

theorem draft_of_sample (sample : String) (line lineOfTag : Nat) :
    (Region.draft (.compile [{ key := "sample", value := sample, line }]) lineOfTag).fault? = none ∧
      (Region.draft (.compile [{ key := "sample", value := sample, line }]) lineOfTag).sampleFile =
        sample := by
  constructor
  · rw [Region.fault?_eq_none_iff_sound, Region.bounds_draft]
    constructor <;> simp [Region.Bounds.ofAssignments, lastNumber?]
  · have named : Opcode.sample.name? = some "sample" := rfl
    rw [Region.draft, OpcodeTable.string?_compile named rfl]
    simp

theorem assignments_of_outline {part : Section} {type : SectionType} {key value : String}
    (spelled : part.outline = ⟨type, [(key, value)]⟩) :
    part.type = type ∧ ∃ line, part.assignments = [{ key, value, line }] := by
  have pairs : part.assignments.map (fun assignment => (assignment.key, assignment.value)) =
      [(key, value)] := congrArg Outline.pairs spelled
  obtain ⟨⟨_, _, line⟩, alone, same⟩ := List.map_eq_singleton_iff.mp pairs
  cases same
  exact ⟨congrArg Outline.type spelled, line, alone⟩

theorem sampleFiles_of_outlines {path sample : String} (named : sample ≠ "")
    {sections : List Section}
    (outlines : sections.map outline =
      [⟨.control, [("default_path", path)]⟩, ⟨.region, [("sample", sample)]⟩]) :
    (declaredRegions sections).map Region.sampleFile = [SamplePath.combine path sample] := by
  obtain ⟨control, _, rfl, ownControl, others⟩ := List.map_eq_cons_iff.mp outlines
  obtain ⟨region, rfl, ownRegion⟩ := List.map_eq_singleton_iff.mp others
  obtain ⟨isControl, lineOfPath, assigned⟩ := assignments_of_outline ownControl
  obtain ⟨isRegion, line, sampled⟩ := assignments_of_outline ownRegion
  obtain ⟨sound, file⟩ := draft_of_sample sample line region.line
  have inherits : inherited [control] = [] := by
    have none (type : SectionType) (differs : .control ≠ type) : lastOf type [control] = [] :=
      lastOf_eq_nil (by simpa [isControl] using differs)
    have since : sinceMaster [control] = [control] := by simp [sinceMaster, isControl]
    rw [inherited, since, none .global (by decide), none .master (by decide),
      none .group (by decide)]
    rfl
  have pathed : lastDefaultPath [control] = path := by
    simp [lastDefaultPath, isControl, assigned]
  have made := Region.ofOpcodes_eq_ok_iff.mpr ⟨sound, rfl⟩
  have described : (declared? [control] region).toList.map Region.sampleFile =
      [SamplePath.combine path sample] := by
    rw [declared?, inherits, List.nil_append, sampled, made]
    dsimp only
    rw [if_neg (file ▸ named), pathed, file]
    rfl
  have silent : declaredRegions [control] = [] := by simp [declaredRegions, isControl]
  have alone := declaredRegions_concat [control] region
  rw [silent, List.nil_append, if_pos isRegion] at alone
  exact (congrArg (List.map Region.sampleFile) alone).trans described

end Section

def Layout.sampleText (path sample : String) : String :=
  Layout.beforeSample path ++ sample ++ "\n"

def Loaded.HasOnly (loaded : Loaded) (file : String) : Prop :=
  ∃ instrument, loaded.result = .ok instrument ∧
    instrument.regions.toList.map Region.sampleFile = [file]

namespace Layout

theorem exists_scan_sampleText {path : String} (isValue : Value "default_path" path)
    (sample : String) (enter : String → State → Outcome) :
    ∃ state : State, state.mode = .ready ∧ state.context = .string ∧
      state.lexemes = lexemesBeforeSample path ∧
      scan enter {} (sampleText path sample).toList =
        scan enter state (sample.toList ++ ['\n']) := by
  obtain ⟨view, leads, ready, string, lexemes⟩ := @leads_beforeSample enter path isValue
  obtain ⟨state, reached, rfl⟩ := leads {} rfl
  have parts : (sampleText path sample).toList =
      (beforeSample path).toList ++ (sample.toList ++ ['\n']) := by
    rw [sampleText, String.toList_append, String.toList_append, List.append_assoc]
    rfl
  refine ⟨state, ready, string, lexemes, ?_⟩
  rw [parts, scan_append_of_read _ reached]

section Load

variable {text path sample : String} {done : State}
  (scanned : scan (entering none defaultMaxDepth defaultMaxDepth) {} text.toList = .ok done)
  (report : Report)

include scanned in
theorem result_load_of_scan :
    (load {} none text report).result =
      match Section.ofTokens done.tokens.toList with
      | .error error => .error (.grouping error)
      | .ok sections => .ok (Instrument.ofSections sections report).1 := by
  have lexed : lex none defaultMaxDepth text =
      { asked := done.asked.toList, result := .ok done.tokens.toList } := by
    rw [lex_eq_lexed, scanned]
    rfl
  have valid : Settings.fault? {} = none := rfl
  unfold load
  rw [valid]
  dsimp only
  rw [lexed]
  dsimp only
  cases Section.ofTokens done.tokens.toList with
  | error error => rfl
  | ok sections => rfl

include scanned in
theorem hasOnly_of_lexemes (named : sample ≠ "")
    (spelled : done.lexemes = lexemesBeforeSample path ++ [.identifier sample]) :
    (load {} none text report).HasOnly (SamplePath.combine path sample) := by
  have spells : Spells [⟨.control, [("default_path", path)]⟩, ⟨.region, [("sample", sample)]⟩]
      (done.tokens.toList.map Token.lexeme) := by
    rw [State.lexemes] at spelled
    rw [spelled]
    exact .cons rfl (.cons rfl .nil)
  obtain ⟨sections, grouped, outlines⟩ := Section.ofTokens_spells spells
  refine ⟨(Instrument.ofSections sections report).1, ?_, ?_⟩
  · rw [result_load_of_scan scanned, grouped]
  · rw [Instrument.regions_ofSections]
    exact Section.sampleFiles_of_outlines named outlines

include scanned in
theorem missing_of_lexemes (spelled : done.lexemes = lexemesBeforeSample path) :
    ∃ line, (load {} none text report).result =
      .error (.grouping { fault := .missingValue "sample", line }) := by
  obtain ⟨line, unfinished⟩ := Section.ofTokens_lexemesBeforeSample spelled
  exact ⟨line, by rw [result_load_of_scan scanned, unfinished]⟩

theorem exists_scan_of_load {instrument : Instrument}
    (loaded : (load {} none text report).result = .ok instrument) :
    ∃ done, scan (entering none defaultMaxDepth defaultMaxDepth) {} text.toList = .ok done := by
  cases scanned : scan (entering none defaultMaxDepth defaultMaxDepth) {} text.toList with
  | ok done => exact ⟨done, rfl⟩
  | error halt =>
    have lexed : lex none defaultMaxDepth text =
        { asked := halt.asked.toList, result := .error halt.error } := by
      rw [lex_eq_lexed, scanned]
      rfl
    have valid : Settings.fault? {} = none := rfl
    unfold load at loaded
    rw [valid] at loaded
    dsimp only at loaded
    rw [lexed] at loaded
    cases loaded

end Load

end Layout

namespace SamplePath

theorem getLast?_asDirectory {path : String} (nonempty : path ≠ "") :
    (asDirectory path).toList.getLast? = some '/' := by
  unfold asDirectory
  split
  · next closed =>
    exact closed.resolve_left fun empty => nonempty (String.toList_eq_nil_iff.mp empty)
  · rw [String.toList_append]
    exact List.getLast?_concat

/-- What is left of a reference behind a blank does not become the reference below any path. -/
theorem combine_remnant_ne {path sample value : String} (nonempty : path ≠ "")
    (slash : sample.toList.head? = some '/') {ready : Bool}
    (remnant : Layout.Remnant ready sample.toList value) :
    combine path value ≠ normalize sample := by
  obtain ⟨front, chars, -, last⟩ := remnant.behind
  have behind : front ≠ [] := by
    rintro rfl
    rw [chars] at slash
    exact (remnant.word.first _ slash).2.1 rfl
  obtain ⟨before, blank, rfl⟩ : ∃ before blank, front = before ++ [blank] :=
    ⟨_, _, (List.dropLast_append_getLast behind).symm⟩
  have isBlank := last blank (by rw [List.getLast?_concat]; rfl)
  intro same
  have spelled := congrArg String.toList same
  rw [toList_normalize, chars, List.map_append] at spelled
  unfold combine at spelled
  split at spelled
  · have shorter := congrArg List.length spelled
    simp [toList_normalize] at shorter
    omega
  · rw [String.toList_append, toList_normalize value] at spelled
    have front := congrArg List.getLast? (List.append_cancel_right spelled)
    rw [getLast?_asDirectory (mt normalize_eq_empty_iff.mp nonempty), List.map_append,
      List.map_singleton, List.getLast?_concat, Option.some.injEq] at front
    -- neither a slash nor a backslash is a blank
    split at front
    · next back =>
      rw [back] at isBlank
      cases isBlank
    · rw [← front] at isBlank
      cases isBlank

theorem closed_entering (file : String) (state : State) :
    ∃ halt, entering none defaultMaxDepth defaultMaxDepth file state = .error halt :=
  ⟨_, rfl⟩

/-- A reference from a root is kept as it is, whatever the default path, if and only if its root is
not written as a slash. A slash makes it a comment; unless a carriage return ends that comment, the
sample has no value. -/
theorem rooted_kept_iff {path sample : String} (isValue : Layout.Value "default_path" path)
    (rooted : Rooted sample) (report : Report) :
    ((load {} none (Layout.sampleText path sample) report).HasOnly (normalize sample) ↔
      sample.toList.head? ≠ some '/') ∧
    (sample.toList.head? = some '/' → '\r' ∉ sample.toList →
      ∃ line, (load {} none (Layout.sampleText path sample) report).result =
        .error (.grouping { fault := .missingValue "sample", line })) := by
  obtain ⟨state, ready, string, lexemes, scanned⟩ := Layout.exists_scan_sampleText isValue sample
    (entering none defaultMaxDepth defaultMaxDepth)
  refine ⟨⟨?_, ?_⟩, ?_⟩
  · rintro ⟨instrument, loaded, only⟩ slash
    obtain ⟨done, reached⟩ := Layout.exists_scan_of_load report loaded
    rcases Layout.addsRemnant_of_scan closed_entering rooted.inside rooted.last (.inl ready) string
        (scanned.symm.trans reached) with nothing | ⟨value, remnant, added⟩
    · obtain ⟨line, missing⟩ :=
        Layout.missing_of_lexemes reached report (nothing.trans lexemes)
      rw [missing] at loaded
      cases loaded
    · obtain ⟨other, same, others⟩ := Layout.hasOnly_of_lexemes reached report
        remnant.word.nonempty (lexemes ▸ added)
      rw [loaded] at same
      cases same
      rw [only] at others
      have same : combine path value = normalize sample := (List.singleton_inj.mp others).symm
      exact combine_remnant_ne isValue.nonempty slash remnant same
  · intro noSlash
    have value := rooted.value noSlash
    obtain ⟨done, reached, added⟩ := Layout.scan_word ready string value.toWord
    have kept := Layout.hasOnly_of_lexemes (scanned.trans reached) report value.nonempty
      (lexemes ▸ added)
    rwa [rooted.combine] at kept
  · intro slash noReturn
    obtain ⟨body, chars⟩ := List.head?_eq_some_iff.mp slash
    have remark : Layout.Remark body := by
      intro c member
      have inSample : c ∈ sample.toList := chars ▸ List.mem_cons_of_mem _ member
      refine ⟨(rooted.inside c inSample).2.2, ?_⟩
      rintro rfl
      exact noReturn inSample
    have comment : Layout.Space ('/' :: (body ++ '\n' :: [])) := .comment remark (.inl rfl) .nil
    obtain ⟨done, reached, nothing⟩ := Layout.scan_of_leads (Layout.leads_space ready comment) ready
    rw [chars, List.cons_append] at scanned
    exact Layout.missing_of_lexemes (scanned.trans reached) report (nothing.trans lexemes)

/-- One file, named from the root with backslashes and with slashes. -/
theorem rooted_kept_iff_kick :
    (load {} none (Layout.sampleText "kit" "\\abs\\kick.wav") {}).HasOnly
        (normalize "\\abs\\kick.wav") ∧
      ∃ line, (load {} none (Layout.sampleText "kit" "/abs/kick.wav") {}).result =
        .error (.grouping { fault := .missingValue "sample", line }) := by
  have kit : Layout.Value "default_path" "kit" := by decide +kernel
  have backslashed : Rooted "\\abs\\kick.wav" :=
    .of_slash (by decide +kernel) (by decide +kernel) (by decide +kernel)
  have slashed : Rooted "/abs/kick.wav" :=
    .of_slash (by decide +kernel) (by decide +kernel) (by decide +kernel)
  exact ⟨(rooted_kept_iff kit backslashed {}).1.mpr (by decide +kernel),
    (rooted_kept_iff kit slashed {}).2 (by decide +kernel) (by decide +kernel)⟩

/-- A file named from the root with slashes is not found in the instrument. -/
theorem slash_lost :
    Layout.Value "default_path" "kit" ∧ Rooted "/abs/kick.wav" ∧
      ¬ (load {} none "<control> default_path=kit\n<region> sample=/abs/kick.wav\n" {}).HasOnly
        (normalize "/abs/kick.wav") := by
  have fails : (load {} none "<control> default_path=kit\n<region> sample=/abs/kick.wav\n"
      {}).result.isOk = false := by
    decide +kernel
  have slashed : Rooted "/abs/kick.wav" :=
    .of_slash (by decide +kernel) (by decide +kernel) (by decide +kernel)
  refine ⟨by decide +kernel, slashed, ?_⟩
  rintro ⟨instrument, loaded, -⟩
  rw [loaded] at fails
  cases fails

end SamplePath

end Sfz
