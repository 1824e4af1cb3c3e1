import Sfz.Decimal
import Sfz.Opcode
import Sfz.Value.Note

/-! Typed opcode values and their conversion from text.

The type of an opcode decides how its text is converted. Text that does not convert yields no
value. Discrete text outside the vocabulary does yield one, `Discrete.unmapped`, so that it still
replaces an earlier assignment.
-/

set_option autoImplicit false

namespace Sfz

inductive Discrete where
  | loopContinuous
  | loopSustain
  | noLoop
  | oneShot
  | attack
  | release
  | unmapped
  deriving DecidableEq, Repr

def Discrete.ofText : String → Discrete
  | "loop_continuous" => .loopContinuous
  | "loop_sustain" => .loopSustain
  | "no_loop" => .noLoop
  | "one_shot" => .oneShot
  | "attack" => .attack
  | "release" => .release
  | _ => .unmapped

def Discrete.known? (word : Discrete) : Option Discrete :=
  if word = .unmapped then none else some word

inductive Value where
  | int (number : Int)
  | float (number : Float32)
  | string (text : String)
  | discrete (word : Discrete)
  deriving DecidableEq

namespace Value

def convert? (type : ValueType) (text : String) : Option Value :=
  match type with
  | .int => (Note.ofText? text).map int
  | .float => (Decimal.float32? text).map float
  | .string => some (string text)
  | .discrete => some (discrete (Discrete.ofText text))
  | .unknown => none

def int? : Value → Option Int
  | int number => some number
  | _ => none

def float? : Value → Option Float32
  | float number => some number
  | _ => none

def string? : Value → Option String
  | string text => some text
  | _ => none

def discrete? : Value → Option Discrete
  | discrete word => some word
  | _ => none

def type : Value → ValueType
  | int _ => .int
  | float _ => .float
  | string _ => .string
  | discrete _ => .discrete

theorem type_of_convert? {type : ValueType} {text : String} {value : Value}
    (converted : convert? type text = some value) : value.type = type := by
  cases type <;> simp only [convert?, Option.map_eq_some_iff, Option.some.injEq, reduceCtorEq]
    at converted
  case int => obtain ⟨_, _, rfl⟩ := converted; rfl
  case float => obtain ⟨_, _, rfl⟩ := converted; rfl
  all_goals subst converted; rfl

/-- Equality up to the sign of zero: numbers are compared as numbers. -/
def same : Value → Value → Bool
  | float first, float second => first == second
  | first, second => first = second

end Value

end Sfz
