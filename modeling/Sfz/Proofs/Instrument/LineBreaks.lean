import Sfz.Proofs.Instrument.Diagnostics
import Sfz.Proofs.Instrument.Inheritance
import Sfz.Proofs.Lexer.LineBreaks
import Sfz.Proofs.Section.Grammar

/-! Loading from a text, and from the same text with a carriage return before each line feed.

The two scans may tell the line of an identifier differently. It becomes the line of an assignment,
and from there on it is only told in warnings: grouping carries it along, tables and diagnostics
leave it out.
-/

set_option autoImplicit false

namespace Sfz

def Assignment.settled (assignment : Assignment) : Assignment :=
  { assignment with line := 0 }

def Section.settled (part : Section) : Section :=
  { part with assignments := part.assignments.map Assignment.settled }

namespace Grouping

def Error.unplaced (error : Error) : Error :=
  { error with line := 0 }

def Pending.settled (pending : Pending) : Pending :=
  { pending with assignments := pending.assignments.map Assignment.settled }

theorem closed_settled (done : Array Section) (pending? : Option Pending) :
    closed (done.map Section.settled) (pending?.map Pending.settled) =
      (closed done pending?).map Section.settled := by
  cases pending? with
  | none => rfl
  | some pending => simp [closed, Pending.close, Pending.settled, Section.settled]

/-- Tokens without the lines of their identifiers give sections without the lines of their
assignments, or the same fault. -/
theorem place_settled (done : Array Section) (pending? : Option Pending) (tokens : List Token) :
    (place (done.map Section.settled) (pending?.map Pending.settled)
        (tokens.map Token.settled)).mapError Error.unplaced =
      ((place done pending? tokens).map (Array.map Section.settled)).mapError Error.unplaced := by
  fun_induction place done pending? tokens with
  | case1 done pending? => exact congrArg Except.ok (closed_settled done pending?)
  | case2 done pending? name line rest unknown =>
    rw [List.map_cons, Token.settled, place, unknown]
    rfl
  | case3 done pending? name line rest type known ih =>
    have opened : Pending.settled { type, line } = { type, line } := by simp [Pending.settled]
    rw [← ih, Option.map_some, opened, ← closed_settled, List.map_cons, Token.settled, place, known]
  | case4 => rfl
  | case5 => rfl
  | case6 done key line pending lineOfEqual value lineOfValue rest assignments ih =>
    rw [← ih]
    simp only [Pending.settled, Option.map_some, assignments, Array.map_push]
    rfl
  | case7 done key line pending lineOfEqual rest noValue =>
    obtain _ | ⟨⟨lexeme, line⟩, rest⟩ := rest
    · rfl
    · cases lexeme with
      | identifier value => exact (noValue value line rest rfl).elim
      | tag name => rfl
      | equal => rfl
  | case8 done key line rest pending _ noEqual =>
    obtain _ | ⟨⟨lexeme, line⟩, rest⟩ := rest
    · rfl
    · cases lexeme with
      | equal => exact (noEqual line rest rfl).elim
      | tag name => rfl
      | identifier text => rfl

end Grouping

namespace Section

theorem ofTokens_settled (tokens : List Token) :
    (ofTokens (tokens.map Token.settled)).mapError Grouping.Error.unplaced =
      ((ofTokens tokens).map (List.map settled)).mapError Grouping.Error.unplaced := by
  have placed := Grouping.place_settled #[] none tokens
  simp only [Option.map_none, List.map_toArray, List.map_nil] at placed
  simp only [ofTokens]
  generalize Grouping.place #[] none tokens = sections,
    Grouping.place #[] none (tokens.map Token.settled) = others at placed ⊢
  cases sections <;> cases others <;> simp_all [Except.map, Except.mapError]

end Section

namespace OpcodeTable

theorem compile_settled (assignments : List Assignment) :
    compile (assignments.map Assignment.settled) = compile assignments := by
  rw [compile, assignAll, List.foldl_map]
  rfl

end OpcodeTable

namespace Scope

variable (scope : Scope) (part : Section)

theorem enter_settled : scope.enter part.settled = scope.enter part := by
  simp only [enter, Section.settled, OpcodeTable.compile_settled]

theorem region_settled : scope.region part.settled = scope.region part := by
  simp only [region, Section.settled, OpcodeTable.compile_settled]

end Scope

namespace Build

theorem assembly_foldl_settled (sections : List Section) (build : Build) :
    ((sections.map Section.settled).foldl step build).assembly =
      (sections.foldl step build).assembly := by
  induction sections generalizing build with
  | nil => rfl
  | cons part rest ih =>
    rw [List.map_cons, List.foldl_cons, List.foldl_cons, ih]
    apply assembly_foldl_step
    · rw [scope_step, scope_step, Scope.enter_settled]
    · rw [assembly_step, assembly_step, Scope.region_settled]
      rfl

end Build

theorem Section.foldl_note_settled (sections : List Section) (diagnostics : Diagnostics) :
    ((sections.map settled).flatMap observed).foldl Diagnostics.note diagnostics =
      (sections.flatMap observed).foldl Diagnostics.note diagnostics := by
  have assignments : (sections.map settled).flatMap observed =
      (sections.flatMap observed).map Assignment.settled := by
    rw [List.flatMap_map, List.map_flatMap]
    congr 1
    funext part
    cases compiled : part.type.isCompiled <;> simp [observed, settled, compiled]
  rw [assignments, List.foldl_map]
  rfl

namespace Instrument

theorem ofSections_settled (sections : List Section) (report : Report) :
    (ofSections (sections.map Section.settled) report).1 = (ofSections sections report).1 ∧
      (ofSections (sections.map Section.settled) report).2.diagnostics =
        (ofSections sections report).2.diagnostics := by
  refine ⟨congrArg Assembly.instrument (Build.assembly_foldl_settled sections _), ?_⟩
  simp only [ofSections, Build.diagnostics_foldl_step, Section.foldl_note_settled]

end Instrument

def LoadError.unplaced : LoadError → LoadError
  | .settings error => .settings error
  | .lexer error => .lexer error.unplaced
  | .grouping error => .grouping error.unplaced

theorem error_or_ok_of_map_eq {ε α β : Type} {unplaced : ε → ε} {settled : α → β}
    {first second : Except ε α}
    (same : (first.map settled).mapError unplaced = (second.map settled).mapError unplaced) :
    (∃ error other, first = .error error ∧ second = .error other ∧
      unplaced error = unplaced other) ∨
    ∃ value other, first = .ok value ∧ second = .ok other ∧ settled value = settled other := by
  cases first with
  | error error =>
    cases second with
    | error other => exact .inl ⟨error, other, rfl, rfl, Except.error.inj same⟩
    | ok value => cases same
  | ok value =>
    cases second with
    | error error => cases same
    | ok other => exact .inr ⟨value, other, rfl, rfl, Except.ok.inj same⟩

/-- The line breaks of a text and of the texts it includes decide nothing: the same files are asked
for, and either the same instrument is loaded, with the same diagnostics, or the same error stops
the load, perhaps at another line. -/
theorem load_withReturns {ρ : Type} [Lexer.Supplier ρ] (settings : Settings) (supplier? : Option ρ)
    (text : String) (report : Report) :
    let unix := load settings supplier? text report
    let dos :=
      load settings (supplier?.map Lexer.Supplier.withReturns) (Text.withReturns text) report
    dos.result.mapError LoadError.unplaced = unix.result.mapError LoadError.unplaced ∧
      dos.report.diagnostics = unix.report.diagnostics ∧ dos.asked = unix.asked := by
  unfold load
  cases settings.fault? with
  | some error => exact ⟨rfl, rfl, rfl⟩
  | none =>
    obtain ⟨asked, scanned⟩ := Lexer.lex_withReturns supplier? settings.maxIncludeDepth text
    rcases error_or_ok_of_map_eq scanned with
      ⟨error, other, failed, fails, errors⟩ | ⟨tokens, others, lexed, lexes, alike⟩
    · simp only [failed, fails, Except.mapError, LoadError.unplaced, errors, asked, and_self]
    · have grouped := Section.ofTokens_settled tokens
      rw [alike, Section.ofTokens_settled] at grouped
      rcases error_or_ok_of_map_eq grouped with
        ⟨error, other, failed, fails, errors⟩ | ⟨sections, parts, placed, places, settled⟩
      · simp only [lexed, lexes, failed, fails, Except.mapError, LoadError.unplaced, errors,
          asked, and_self]
      · obtain ⟨instrument, diagnostics⟩ := Instrument.ofSections_settled sections report
        rw [settled, (Instrument.ofSections_settled _ _).1] at instrument
        rw [settled, (Instrument.ofSections_settled _ _).2] at diagnostics
        simp only [lexed, lexes, placed, places, instrument, diagnostics, asked, and_self]

end Sfz
