/-!
# Values handed over by a front end

Settings and lists of rules come from outside as untyped values. Numbers keep apart the whole ones that are written
without a fraction, because counts have to be such.
-/

namespace Numerics.Frontend

/-- An untyped value. -/
inductive Value where
  | null
  | bool (b : Bool)
  | whole (n : Int)
  | number (x : Float)
  | text (s : String)
  | list (items : List Value)
  | object (fields : List (String × Value))
  deriving Inhabited

namespace Value

/-- The number, if the value is one. -/
def float? : Value → Option Float
  | whole n => some (.ofInt n)
  | number x => some x
  | _ => none

/-- The count, if the value is one: a whole number from 0 to the largest machine word. -/
def count? : Value → Option Nat
  | whole n => if 0 ≤ n && n.toNat < UInt64.size then some n.toNat else none
  | _ => none

/-- The truth value, if the value is one. -/
def bool? : Value → Option Bool
  | bool b => some b
  | _ => none

/-- The pair of numbers, if the value is a list of two. -/
def pair? : Value → Option (Float × Float)
  | list [a, b] => do return (← a.float?, ← b.float?)
  | _ => none

/-- The members of an object, if the value is one. -/
def fields? : Value → Option (List (String × Value))
  | object fields => some fields
  | _ => none

end Value

/-- The member of a name, read by `read`; `fallback` if there is none. None if it cannot be read. -/
def member {β : Type} (fields : List (String × Value)) (name : String) (fallback : β) (read : Value → Option β) :
    Option β :=
  match fields.lookup name with
  | none => some fallback
  | some v => read v

end Numerics.Frontend
