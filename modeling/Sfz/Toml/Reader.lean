import Sfz.Decimal
import Sfz.Toml.Document

/-! Reading TOML documents.

A reader takes the characters that belong to what it reads from the front of a text and returns
the rest, or nothing if the text does not begin so. Values are strings in the four quotings,
integers in 64 bits and four bases, floats, booleans, dates and times, arrays, and tables in one
line.
-/

set_option autoImplicit false

namespace Sfz.Toml

/-- Fewer arrays and tables than this may be open inside one another, and a key has fewer parts. -/
def nestingLimit : Nat := 80

abbrev Reader (α : Type) := List Char → Option (α × List Char)

def prepend (c : Char) (read : Option (List Char × List Char)) :
    Option (List Char × List Char) :=
  read.map fun (text, rest) => (c :: text, rest)

def isBlank (c : Char) : Bool := c = ' ' || c = '\t'

/-- Whether a character may stand as itself on a line; control characters but the tab may not. -/
def isPlain (c : Char) : Bool :=
  c = '\t' || (' ' ≤ c && c ≠ '\x7f')

def skipBlanks (text : List Char) : List Char :=
  text.dropWhile isBlank

def lineEnd? : List Char → Option (List Char)
  | '\n' :: rest => some rest
  | '\r' :: '\n' :: rest => some rest
  | _ => none

def digitValue (c : Char) : Nat :=
  if c.isDigit then c.toNat - '0'.toNat
  else if 'a' ≤ c ∧ c ≤ 'f' then c.toNat - 'a'.toNat + 10
  else c.toNat - 'A'.toNat + 10

def isHexDigit (c : Char) : Bool :=
  c.isDigit || ('a' ≤ c && c ≤ 'f') || ('A' ≤ c && c ≤ 'F')

def ofDigits (base : Nat) (digits : List Char) : Nat :=
  digits.foldl (fun number digit => base * number + digitValue digit) 0

def escapedChar? (digits : List Char) : Option Char :=
  let code := ofDigits 16 digits
  if digits.all isHexDigit ∧ code.isValidChar then some (Char.ofNat code) else none

def letterEscape? : Char → Option Char
  | 'b' => some '\x08'
  | 't' => some '\t'
  | 'n' => some '\n'
  | 'f' => some '\x0c'
  | 'r' => some '\r'
  | '"' => some '"'
  | '\\' => some '\\'
  | _ => none

def basicString : Reader (List Char)
  | '"' :: rest => some ([], rest)
  | '\\' :: 'u' :: a :: b :: c :: d :: rest =>
    (escapedChar? [a, b, c, d]).bind fun escaped => prepend escaped (basicString rest)
  | '\\' :: 'U' :: a :: b :: c :: d :: e :: f :: g :: h :: rest =>
    (escapedChar? [a, b, c, d, e, f, g, h]).bind fun escaped => prepend escaped (basicString rest)
  | '\\' :: letter :: rest =>
    (letterEscape? letter).bind fun escaped => prepend escaped (basicString rest)
  | c :: rest => if isPlain c ∧ c ≠ '\\' then prepend c (basicString rest) else none
  | [] => none

def literalString : Reader (List Char)
  | '\'' :: rest => some ([], rest)
  | c :: rest => if isPlain c then prepend c (literalString rest) else none
  | [] => none

/-- At most two more quotes right after the closing ones belong to a string of several lines. -/
def trailingQuotes (quote : Char) : List Char → List Char × List Char
  | first :: second :: rest =>
    if first ≠ quote then ([], first :: second :: rest)
    else if second ≠ quote then ([quote], second :: rest)
    else ([quote, quote], rest)
  | [last] => if last = quote then ([quote], []) else ([], [last])
  | [] => ([], [])

def endsLine (text : List Char) : Bool :=
  (lineEnd? (skipBlanks text)).isSome

/-- The rest of a string in three quotation marks. While `joining`, blanks and line ends after a
backslash at the end of a line are dropped. -/
def longBasicString (joining : Bool) : Reader (List Char)
  | '"' :: '"' :: '"' :: rest => some (trailingQuotes '"' rest)
  | '\\' :: 'u' :: a :: b :: c :: d :: rest =>
    (escapedChar? [a, b, c, d]).bind fun escaped => prepend escaped (longBasicString false rest)
  | '\\' :: 'U' :: a :: b :: c :: d :: e :: f :: g :: h :: rest =>
    (escapedChar? [a, b, c, d, e, f, g, h]).bind fun escaped =>
      prepend escaped (longBasicString false rest)
  | '\\' :: letter :: rest =>
    if endsLine (letter :: rest) then
      longBasicString true (letter :: rest)
    else
      (letterEscape? letter).bind fun escaped => prepend escaped (longBasicString false rest)
  | '\r' :: '\n' :: rest =>
    if joining then longBasicString true rest else prepend '\n' (longBasicString false rest)
  | c :: rest =>
    if joining && (isBlank c || c = '\n') then
      longBasicString true rest
    else if (isPlain c && c ≠ '\\') || c = '\n' then
      prepend c (longBasicString false rest)
    else
      none
  | [] => none

def longLiteralString : Reader (List Char)
  | '\'' :: '\'' :: '\'' :: rest => some (trailingQuotes '\'' rest)
  | '\r' :: '\n' :: rest => prepend '\n' (longLiteralString rest)
  | c :: rest =>
    if isPlain c || c = '\n' then prepend c (longLiteralString rest) else none
  | [] => none

def afterOpening (text : List Char) : List Char :=
  (lineEnd? text).getD text

def grouped? (isDigit : Char → Bool) : List Char → Option (List Char)
  | [] => none
  | [c] => if isDigit c then some [c] else none
  | c :: '_' :: rest => if isDigit c then (grouped? isDigit rest).map (c :: ·) else none
  | c :: rest => if isDigit c then (grouped? isDigit rest).map (c :: ·) else none

def decimalDigits? (text : List Char) : Option (List Char) :=
  match text with
  | '0' :: _ :: _ => none
  | _ => grouped? Char.isDigit text

def splitSign : List Char → Option Char × List Char
  | '+' :: rest => (some '+', rest)
  | '-' :: rest => (some '-', rest)
  | rest => (none, rest)

def integerBound : Nat := 9223372036854775808

def within64? (number : Int) : Option Int64 :=
  if -integerBound ≤ number ∧ number < integerBound then some (Int64.ofInt number) else none

def isOctalDigit (c : Char) : Bool := '0' ≤ c && c ≤ '7'

def isBinaryDigit (c : Char) : Bool := c = '0' || c = '1'

/-- The integer that a whole word writes; only a decimal one may have a sign. -/
def integer? (word : List Char) : Option Int64 :=
  match word with
  | '0' :: 'x' :: digits =>
    (grouped? isHexDigit digits).bind fun digits => within64? (ofDigits 16 digits)
  | '0' :: 'o' :: digits =>
    (grouped? isOctalDigit digits).bind fun digits => within64? (ofDigits 8 digits)
  | '0' :: 'b' :: digits =>
    (grouped? isBinaryDigit digits).bind fun digits => within64? (ofDigits 2 digits)
  | _ =>
    let (sign, unsigned) := splitSign word
    (decimalDigits? unsigned).bind fun digits =>
      let number : Int := ofDigits 10 digits
      within64? (if sign = some '-' then -number else number)

def isExponentMark (c : Char) : Bool := c = 'e' || c = 'E'

def isExponent (optional : Bool) : List Char → Bool
  | [] => optional
  | mark :: rest => isExponentMark mark && (grouped? Char.isDigit (splitSign rest).2).isSome

def isFloat (word : List Char) : Bool :=
  let unsigned := (splitSign word).2
  if unsigned = ['i', 'n', 'f'] ∨ unsigned = ['n', 'a', 'n'] then
    true
  else
    let isWhole := fun c => c ≠ '.' && !isExponentMark c
    (decimalDigits? (unsigned.takeWhile isWhole)).isSome &&
      match unsigned.dropWhile isWhole with
      | '.' :: rest =>
        (grouped? Char.isDigit (rest.takeWhile (!isExponentMark ·))).isSome &&
          isExponent true (rest.dropWhile (!isExponentMark ·))
      | rest => isExponent false rest

def isTooLarge (word : List Char) : Bool :=
  match Decimal.ofList? (word.filter (· ≠ '_')) with
  | none => false
  | some number => !number.negative && number.toFloat.isInf

def twoDigits? (low high : Nat) : Reader Nat
  | tens :: ones :: rest =>
    let number := ofDigits 10 [tens, ones]
    if tens.isDigit ∧ ones.isDigit ∧ low ≤ number ∧ number ≤ high then
      some (number, rest)
    else
      none
  | _ => none

def daysOf (year month : Nat) : Nat :=
  if month = 2 then
    if year % 4 = 0 ∧ (year % 100 ≠ 0 ∨ year % 400 = 0) then 29 else 28
  else if month ∈ [4, 6, 9, 11] then
    30
  else
    31

def afterDate? (text : List Char) : Option (List Char) :=
  let year := text.take 4
  if year.length = 4 ∧ year.all Char.isDigit then
    match text.drop 4 with
    | '-' :: rest =>
      match twoDigits? 1 12 rest with
      | some (month, '-' :: rest) =>
        (twoDigits? 1 (daysOf (ofDigits 10 year) month) rest).map Prod.snd
      | _ => none
    | _ => none
  else
    none

def afterMinutes? (text : List Char) : Option (List Char) :=
  match twoDigits? 0 23 text with
  | some (_, ':' :: rest) => (twoDigits? 0 59 rest).map Prod.snd
  | _ => none

/-- What is behind a time. A minute may have a leap second. -/
def afterTime? (text : List Char) : Option (List Char) :=
  match afterMinutes? text with
  | some (':' :: rest) =>
    match twoDigits? 0 60 rest with
    | some (_, '.' :: rest) =>
      if rest.takeWhile Char.isDigit = [] then none else some (rest.dropWhile Char.isDigit)
    | some (_, rest) => some rest
    | none => none
  | _ => none

def isOffset : List Char → Bool
  | [] | ['Z'] | ['z'] => true
  | sign :: rest => (sign = '+' || sign = '-') && afterMinutes? rest = some []

def isTimeOfDate (word : List Char) : Bool :=
  match afterTime? word with
  | some rest => isOffset rest
  | none => false

def isMoment (word : List Char) : Bool :=
  match afterDate? word with
  | some [] => true
  | some (mark :: time) => (mark = 'T' || mark = 't') && isTimeOfDate time
  | none => afterTime? word = some []

def isWordChar (c : Char) : Bool :=
  c.isAlphanum || c = '+' || c = '-' || c = '_' || c = '.' || c = ':'

/-- The value that a whole word writes. A float above the double-precision range is refused; one
below it stands for negative infinity. -/
def ofWord? (word : List Char) : Option Value :=
  if word = ['t', 'r', 'u', 'e'] then
    some (.boolean true)
  else if word = ['f', 'a', 'l', 's', 'e'] then
    some (.boolean false)
  else
    match integer? word with
    | some number => some (.integer number)
    | none =>
      if isFloat word && !isTooLarge word then
        some (.float (String.ofList word))
      else if isMoment word then
        some (.moment (String.ofList word))
      else
        none

/-- Read a word. A date may have its time behind a blank. -/
def readWord : Reader Value := fun text =>
  let word := text.takeWhile isWordChar
  let alone := (ofWord? word).map fun value => (value, text.dropWhile isWordChar)
  match text.dropWhile isWordChar with
  | ' ' :: rest =>
    let time := rest.takeWhile isWordChar
    if afterDate? word = some [] ∧ isTimeOfDate time then
      some (.moment (String.ofList (word ++ ' ' :: time)), rest.dropWhile isWordChar)
    else
      alone
  | _ => alone

def skipGaps (inComment : Bool) : List Char → List Char
  | '\n' :: rest => skipGaps false rest
  | '\r' :: '\n' :: rest => skipGaps false rest
  | c :: rest =>
    if inComment then
      if isPlain c then skipGaps true rest else c :: rest
    else if isBlank c then
      skipGaps false rest
    else if c = '#' then
      skipGaps true rest
    else
      c :: rest
  | [] => []

def asString (read : Option (List Char × List Char)) : Option (Value × List Char) :=
  read.map fun (text, rest) => (.string (String.ofList text), rest)

def isKeyChar (c : Char) : Bool :=
  c.isAlphanum || c = '_' || c = '-'

def keyPart : Reader String
  | '"' :: rest => (basicString rest).map fun (text, rest) => (String.ofList text, rest)
  | '\'' :: rest => (literalString rest).map fun (text, rest) => (String.ofList text, rest)
  | text =>
    if text.takeWhile isKeyChar = [] then
      none
    else
      some (String.ofList (text.takeWhile isKeyChar), text.dropWhile isKeyChar)

def readKey : Nat → Reader (List String)
  | 0, _ => none
  | fuel + 1, text =>
    (keyPart text).bind fun (part, rest) =>
      match skipBlanks rest with
      | '.' :: rest =>
        (readKey fuel (skipBlanks rest)).map fun (parts, rest) => (part :: parts, rest)
      | rest => some ([part], rest)

def key : Reader (List String) := fun text =>
  (readKey (text.length + 1) text).filter fun (parts, _) => parts.length < nestingLimit

mutual

/-- Read a value inside which `room` arrays and tables may be open; `fuel` bounds their length. -/
def readValue (room : Nat) : Nat → Reader Value
  | 0, _ => none
  | fuel + 1, text =>
    match text with
    | '"' :: '"' :: '"' :: rest => asString (longBasicString false (afterOpening rest))
    | '"' :: rest => asString (basicString rest)
    | '\'' :: '\'' :: '\'' :: rest => asString (longLiteralString (afterOpening rest))
    | '\'' :: rest => asString (literalString rest)
    | '[' :: rest =>
      match room with
      | 0 => none
      | room + 1 =>
        (readItems room fuel (skipGaps false rest)).map fun (items, rest) => (.array items, rest)
    | '{' :: rest =>
      match room with
      | 0 => none
      | room + 1 =>
        (readPairs room fuel (skipBlanks rest)).bind fun (pairs, rest) =>
          (Document.ofPairs? pairs).map fun _ => (.table pairs, rest)
    | text => readWord text

def readItems (room : Nat) : Nat → Reader (List Value)
  | 0, _ => none
  | _ + 1, ']' :: rest => some ([], rest)
  | fuel + 1, text =>
    (readValue room fuel text).bind fun (item, rest) =>
      match skipGaps false rest with
      | ',' :: rest =>
        (readItems room fuel (skipGaps false rest)).map fun (items, rest) => (item :: items, rest)
      | ']' :: rest => some ([item], rest)
      | _ => none

def readPairs (room : Nat) : Nat → Reader (List (List String × Value))
  | 0, _ => none
  | _ + 1, '}' :: rest => some ([], rest)
  | fuel + 1, text =>
    (readPair room fuel text).bind fun (pair, rest) =>
      match skipBlanks rest with
      -- in one line a comma is followed by another pair
      | ',' :: rest =>
        match skipBlanks rest with
        | '}' :: _ => none
        | rest => (readPairs room fuel rest).map fun (pairs, rest) => (pair :: pairs, rest)
      | '}' :: rest => some ([pair], rest)
      | _ => none

def readPair (room : Nat) : Nat → Reader (List String × Value)
  | 0, _ => none
  | fuel + 1, text =>
    (key text).bind fun (key, rest) =>
      match rest with
      | '=' :: rest =>
        (readValue room fuel (skipBlanks rest)).map fun (value, rest) => ((key, value), rest)
      | _ => none

end

/-- Read a value. Every two steps on the way to a value inside others take a character, so the
fuel lasts. -/
def value : Reader Value := fun text =>
  readValue (nestingLimit - 1) (2 * text.length + 2) text

def skipComment (text : List Char) : List Char :=
  match text with
  | '#' :: rest => rest.dropWhile isPlain
  | text => text

def nextLine? (text : List Char) : Option (List Char) :=
  match skipComment (skipBlanks text) with
  | [] => some []
  | rest => lineEnd? rest

def statement : Reader Statement
  | '[' :: '[' :: rest =>
    (key (skipBlanks rest)).bind fun (key, rest) =>
      match rest with
      | ']' :: ']' :: rest => some (.tableItem key, rest)
      | _ => none
  | '[' :: rest =>
    (key (skipBlanks rest)).bind fun (key, rest) =>
      match rest with
      | ']' :: rest => some (.table key, rest)
      | _ => none
  | text =>
    (key text).bind fun (key, rest) =>
      match rest with
      | '=' :: rest =>
        (value (skipBlanks rest)).map fun (value, rest) => (.assign key value, rest)
      | _ => none

def readLines : Nat → Document → List Char → Option Document
  | 0, _, _ => none
  | fuel + 1, document, text =>
    match nextLine? text with
    | some [] => some document
    | some rest => readLines fuel document rest
    | none => do
      let (statement, rest) ← statement (skipBlanks text)
      let document ← document.apply statement
      let rest ← nextLine? rest
      if rest = [] then some document else readLines fuel document rest

def skipByteOrderMark : List Char → List Char
  | '\uFEFF' :: rest => rest
  | text => text

/-- Read a whole document. Every line takes a character, so the fuel lasts. -/
def Document.ofText? (text : String) : Option Document :=
  let text := skipByteOrderMark text.toList
  readLines (text.length + 1) {} text

end Sfz.Toml
