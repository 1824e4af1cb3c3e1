import Sfz.Text

/-! Integers and note names.

An integer value is a signed decimal number or a note: a letter from `a` to `g`, an optional `#`
that raises it by a semitone, and the octave as a signed number. Octave 4 begins at middle C,
which is 60. Numbers outside the signed 32-bit range are refused, and so is every step on the way
from octave to note that leaves it.
-/

set_option autoImplicit false

namespace Sfz.Note

def pitchClass? : Char → Option Int
  | 'c' | 'C' => some 0
  | 'd' | 'D' => some 2
  | 'e' | 'E' => some 4
  | 'f' | 'F' => some 5
  | 'g' | 'G' => some 7
  | 'a' | 'A' => some 9
  | 'b' | 'B' => some 11
  | _ => none

def splitLetter : List Char → Option Int × List Char
  | [] => (none, [])
  | letter :: rest =>
    match pitchClass? letter, rest with
    | some semitones, '#' :: rest => (some (semitones + 1), rest)
    | some semitones, rest => (some semitones, rest)
    | none, rest => (none, letter :: rest)

def within32? (number : Int) : Option Int :=
  if -2147483648 ≤ number ∧ number < 2147483648 then some number else none

def ofOctave? (semitones octave : Int) : Option Int := do
  let start ← within32? (12 * octave)
  within32? (start + (12 + semitones))

/-- Read an integer value; White_Space around it does not count. -/
def ofText? (text : String) : Option Int :=
  match splitLetter (Text.trim text.toList) with
  | (none, digits) => (Text.signed? digits).bind within32?
  | (some semitones, digits) => do
    let octave ← (Text.signed? digits).bind within32?
    ofOctave? semitones octave

end Sfz.Note
