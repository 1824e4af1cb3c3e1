import Mathlib.Data.List.Basic
import Sfz.Toml.Reader

/-! Documents of plain lines.

A plain line gives a bare name the value of a word. A document of such lines with distinct names is
read to its end, and every name has its value at the root.
-/

set_option autoImplicit false

namespace Sfz.Toml

/-- Characters that begin or end something in a document, and are part of no word. -/
def isMark (c : Char) : Bool :=
  c ∈ [' ', '\t', '\n', '\r', '#', '=', '[', '{', '"', '\'']

theorem isMark_of_isWordChar {c : Char} (word : isWordChar c = true) : isMark c = false := by
  rw [isMark, decide_eq_false_iff_not]
  intro mark
  simp only [List.mem_cons, List.not_mem_nil, or_false] at mark
  rcases mark with rfl | rfl | rfl | rfl | rfl | rfl | rfl | rfl | rfl | rfl <;> cases word

theorem isWordChar_of_isKeyChar {c : Char} (name : isKeyChar c = true) : isWordChar c = true := by
  simp only [isKeyChar, isWordChar, Bool.or_eq_true] at name ⊢
  tauto

structure Run (isOne : Char → Bool) (text : List Char) : Prop where
  nonempty : text ≠ []
  chars : ∀ c ∈ text, isOne c

instance (isOne : Char → Bool) (text : List Char) : Decidable (Run isOne text) :=
  decidable_of_iff (text ≠ [] ∧ text.all isOne = true)
    ⟨fun ⟨nonempty, all⟩ => ⟨nonempty, List.all_eq_true.mp all⟩,
      fun ⟨nonempty, chars⟩ => ⟨nonempty, List.all_eq_true.mpr chars⟩⟩

section Run

variable {isOne : Char → Bool} {text : List Char} (run : Run isOne text)
include run

theorem Run.exists_cons : ∃ first rest, text = first :: rest ∧ isOne first := by
  obtain ⟨first, rest, rfl⟩ := List.exists_cons_of_ne_nil run.nonempty
  exact ⟨first, rest, rfl, run.chars first List.mem_cons_self⟩

theorem Run.takeWhile_append {c : Char} (ends : isOne c = false) (rest : List Char) :
    (text ++ c :: rest).takeWhile isOne = text := by
  rw [List.takeWhile_append_of_pos run.chars, List.takeWhile_cons_of_neg (by simp [ends]),
    List.append_nil]

theorem Run.dropWhile_append {c : Char} (ends : isOne c = false) (rest : List Char) :
    (text ++ c :: rest).dropWhile isOne = c :: rest := by
  rw [List.dropWhile_append_of_pos run.chars, List.dropWhile_cons_of_neg (by simp [ends])]

end Run

section Unmarked

variable {first : Char} (unmarked : isMark first = false) (rest : List Char)
include unmarked

theorem keyPart_of_unmarked :
    keyPart (first :: rest) =
      if (first :: rest).takeWhile isKeyChar = [] then none
      else some (String.ofList ((first :: rest).takeWhile isKeyChar),
        (first :: rest).dropWhile isKeyChar) := by
  unfold keyPart
  split
  · next same => cases same; cases unmarked
  · next same => cases same; cases unmarked
  · rfl

theorem readValue_of_unmarked (room fuel : Nat) :
    readValue room (fuel + 1) (first :: rest) = readWord (first :: rest) := by
  unfold readValue
  split
  · next same => cases same; cases unmarked
  · next same => cases same; cases unmarked
  · next same => cases same; cases unmarked
  · next same => cases same; cases unmarked
  · next same => cases same; cases unmarked
  · next same => cases same; cases unmarked
  · rfl

theorem statement_of_unmarked :
    statement (first :: rest) =
      (key (first :: rest)).bind fun (key, rest) =>
        match rest with
        | '=' :: rest =>
          (value (skipBlanks rest)).map fun (value, rest) => (.assign key value, rest)
        | _ => none := by
  unfold statement
  split
  · next same => cases same; cases unmarked
  · next same => cases same; cases unmarked
  · rfl

theorem skipBlanks_of_unmarked : skipBlanks (first :: rest) = first :: rest := by
  have solid : ¬isBlank first = true := by
    rw [isBlank, Bool.or_eq_true, decide_eq_true_eq, decide_eq_true_eq]
    rintro (rfl | rfl) <;> cases unmarked
  exact List.dropWhile_cons_of_neg solid

theorem nextLine?_of_unmarked : nextLine? (first :: rest) = none := by
  have noComment : skipComment (first :: rest) = first :: rest := by
    unfold skipComment
    split
    · next same => cases same; cases unmarked
    · rfl
  rw [nextLine?, skipBlanks_of_unmarked unmarked, noComment]
  change lineEnd? (first :: rest) = none
  unfold lineEnd?
  split
  · next same => cases same; cases unmarked
  · next same => cases same; cases unmarked
  · rfl

end Unmarked

theorem keyPart_append {name : List Char} (run : Run isKeyChar name) (rest : List Char) :
    keyPart (name ++ ' ' :: rest) = some (String.ofList name, ' ' :: rest) := by
  have taken := run.takeWhile_append (c := ' ') rfl rest
  have left := run.dropWhile_append (c := ' ') rfl rest
  obtain ⟨first, others, rfl, isName⟩ := run.exists_cons
  have unmarked := isMark_of_isWordChar (isWordChar_of_isKeyChar isName)
  rw [List.cons_append] at taken left ⊢
  rw [keyPart_of_unmarked unmarked, taken, left, if_neg run.nonempty]

theorem key_append {name : List Char} (run : Run isKeyChar name) (rest : List Char) :
    key (name ++ ' ' :: '=' :: rest) = some ([String.ofList name], '=' :: rest) := by
  rw [key, readKey, keyPart_append run]
  rfl

theorem value_append {word : List Char} {value : Value} (run : Run isWordChar word)
    (means : ofWord? word = some value) (rest : List Char) :
    Toml.value (word ++ '\n' :: rest) = some (value, '\n' :: rest) := by
  have taken := run.takeWhile_append (c := '\n') rfl rest
  have left := run.dropWhile_append (c := '\n') rfl rest
  obtain ⟨first, others, rfl, isWord⟩ := run.exists_cons
  rw [List.cons_append] at taken left ⊢
  rw [Toml.value, readValue_of_unmarked (isMark_of_isWordChar isWord), readWord, taken, left, means]
  rfl

/-- A name and a word, with the value that the word writes. -/
structure Entry where
  name : String
  word : String
  value : Value

namespace Entry

def line (entry : Entry) : List Char :=
  entry.name.toList ++ ' ' :: '=' :: ' ' :: (entry.word.toList ++ ['\n'])

structure Plain (entry : Entry) : Prop where
  name : Run isKeyChar entry.name.toList
  word : Run isWordChar entry.word.toList
  means : ofWord? entry.word.toList = some entry.value

def path (entry : Entry) : Path :=
  [.key entry.name]

theorem statement_line {entry : Entry} (plain : entry.Plain) (rest : List Char) :
    statement (entry.line ++ rest) = some (.assign [entry.name] entry.value, '\n' :: rest) := by
  have named := key_append plain.name (' ' :: (entry.word.toList ++ '\n' :: rest))
  have read := value_append plain.word plain.means rest
  have spelled : entry.line ++ rest =
      entry.name.toList ++ ' ' :: '=' :: ' ' :: (entry.word.toList ++ '\n' :: rest) := by
    simp [line]
  obtain ⟨firstOfWord, _, wordChars, isWord⟩ := plain.word.exists_cons
  have noBlank : skipBlanks (' ' :: (entry.word.toList ++ '\n' :: rest)) =
      entry.word.toList ++ '\n' :: rest := by
    rw [wordChars]
    exact skipBlanks_of_unmarked (isMark_of_isWordChar isWord) _
  obtain ⟨first, _, nameChars, isName⟩ := plain.name.exists_cons
  have unmarked := isMark_of_isWordChar (isWordChar_of_isKeyChar isName)
  rw [String.ofList_toList] at named
  rw [spelled]
  rw [nameChars] at named ⊢
  rw [List.cons_append, statement_of_unmarked unmarked, ← List.cons_append, named]
  change (Toml.value (skipBlanks (' ' :: (entry.word.toList ++ '\n' :: rest)))).map _ = _
  rw [noBlank, read]
  rfl

end Entry

namespace Document

@[simp] theorem node?_put (document : Document) (path other : Path) (node : Node) :
    (document.put path node).node? other =
      if other = path then some node else document.node? other := by
  rw [node?, put, List.lookup_cons, node?]
  by_cases same : other = path
  · rw [if_pos same, beq_iff_eq.mpr same]
  · rw [if_neg same, beq_eq_false_iff_ne.mpr same]

def enter (document : Document) (entry : Entry) : Document :=
  document.put entry.path (.value entry.value)

/-- Assignments go to the root, and nothing stands at its place. -/
structure AtRoot (document : Document) : Prop where
  current : document.current = []
  root : document.node? [] = none

section AtRoot

variable {document : Document} (atRoot : document.AtRoot) (entry : Entry)
include atRoot

theorem AtRoot.entered : (document.enter entry).AtRoot where
  current := atRoot.current
  root := by simp [enter, Entry.path, atRoot.root]

theorem AtRoot.apply_assign (fresh : document.node? entry.path = none) :
    document.apply (.assign [entry.name] entry.value) =
      some (document.enter entry) := by
  simpa [apply, descend, takes, enter, atRoot.current, atRoot.root, Entry.path] using fresh

theorem AtRoot.readLines_line {entry : Entry} (plain : entry.Plain)
    (fresh : document.node? entry.path = none) (fuel : Nat) (rest : List Char) :
    readLines (fuel + 1) document (entry.line ++ rest) =
      if rest = [] then some (document.enter entry)
      else readLines fuel (document.enter entry) rest := by
  have stated := entry.statement_line plain rest
  have ended : nextLine? ('\n' :: rest) = some rest := rfl
  obtain ⟨first, others, chars, isName⟩ : ∃ first others,
      entry.line ++ rest = first :: others ∧ isKeyChar first := by
    obtain ⟨first, others, chars, isName⟩ := plain.name.exists_cons
    exact ⟨first, _, by rw [Entry.line, chars]; rfl, isName⟩
  have unmarked := isMark_of_isWordChar (isWordChar_of_isKeyChar isName)
  rw [chars] at stated ⊢
  rw [readLines, nextLine?_of_unmarked unmarked, skipBlanks_of_unmarked unmarked, stated]
  simp only [Option.bind_eq_bind, Option.bind_some, atRoot.apply_assign entry fresh, ended]

end AtRoot

@[simp] theorem root?_enter (document : Document) (entry : Entry) (name : String) :
    (document.enter entry).root? name =
      if name = entry.name then some (.value entry.value) else document.root? name := by
  simp [root?, enter, Entry.path]

theorem AtRoot.readLines_lines {entries : List Entry} {document : Document}
    (atRoot : document.AtRoot) (plain : ∀ entry ∈ entries, entry.Plain)
    (distinct : (entries.map Entry.name).Nodup)
    (fresh : ∀ entry ∈ entries, document.node? entry.path = none) {fuel : Nat}
    (enough : entries.length < fuel) :
    readLines fuel document (entries.flatMap Entry.line) = some (entries.foldl enter document) := by
  induction entries generalizing document fuel with
  | nil =>
    obtain _ | fuel := fuel
    · cases enough
    · rfl
  | cons entry rest ih =>
    obtain _ | fuel := fuel
    · cases enough
    rw [List.forall_mem_cons] at plain fresh
    rw [List.map_cons, List.nodup_cons] at distinct
    rw [List.flatMap_cons, atRoot.readLines_line plain.1 fresh.1]
    cases rest with
    | nil => rfl
    | cons other more =>
      have goesOn : (other :: more).flatMap Entry.line ≠ [] := by
        simp [Entry.line]
      rw [if_neg goesOn]
      apply ih (atRoot.entered entry) plain.2 distinct.2
      · intro later member
        have differs : later.name ≠ entry.name := fun same =>
          distinct.1 (same ▸ List.mem_map_of_mem member)
        have absent := fresh.2 later member
        simpa [enter, Entry.path, differs] using absent
      · exact Nat.lt_of_succ_lt_succ enough

def ofEntries (entries : List Entry) : Document :=
  entries.foldl enter {}

theorem skipByteOrderMark_lines {entries : List Entry} (plain : ∀ entry ∈ entries, entry.Plain) :
    skipByteOrderMark (entries.flatMap Entry.line) = entries.flatMap Entry.line := by
  unfold skipByteOrderMark
  split
  · next rest chars =>
    cases entries with
    | nil => cases chars
    | cons entry others =>
      obtain ⟨first, more, name, isName⟩ := (plain entry List.mem_cons_self).name.exists_cons
      rw [List.flatMap_cons, Entry.line, name] at chars
      cases chars
      cases isName
  · rfl

/-- A document of plain lines with distinct names is read, each value to its name. -/
theorem ofText?_of_lines {entries : List Entry} (plain : ∀ entry ∈ entries, entry.Plain)
    (distinct : (entries.map Entry.name).Nodup) {text : String}
    (spelled : text.toList = entries.flatMap Entry.line) :
    ofText? text = some (ofEntries entries) := by
  have short : entries.length ≤ (entries.flatMap Entry.line).length := by
    clear plain distinct spelled
    induction entries with
    | nil => exact Nat.le_refl _
    | cons entry rest ih =>
      rw [List.flatMap_cons, List.length_append, Entry.line, List.length_append]
      simp only [List.length_cons]
      omega
  have empty : AtRoot {} := ⟨rfl, rfl⟩
  rw [ofText?, spelled, skipByteOrderMark_lines plain]
  exact empty.readLines_lines plain distinct (fun _ _ => rfl) (Nat.lt_succ_of_le short)

end Document

end Sfz.Toml
