import Numerics.Extremum.AxisSearch
import Numerics.Formula.Objective
import Numerics.Integral.Adaptive
import Numerics.Root.Bisection

/-!
# Sessions

A session keeps compiled formulas and tokens under names of their own. Tokens stand for flags that are raised and
never lowered; a token may be given a second name, and then both names stand for one flag.
-/

namespace Numerics

/-- Formulas and flags under their names. `flags` tells of each flag whether it has been raised, newest flag
first, and a token's name stands for the number of flags that are older than its own. -/
structure Session where
  formulas : List (String × Formula)
  tokens : List (String × Nat)
  flags : List Bool
  deriving Repr

namespace Session

/-- A session without formulas and tokens. -/
def empty : Session := ⟨[], [], []⟩

/-- The formula of a name. -/
def formula? (s : Session) (name : String) : Option Formula := s.formulas.lookup name

/-- The session with a formula under a name, in place of another one under it; unchanged if the text is none. -/
def compile (s : Session) (name text : String) (names : List String) :
    Session × Except Formula.ParseError Formula :=
  match Formula.compile text names with
  | .ok f => ({ s with formulas := (name, f) :: s.formulas }, .ok f)
  | .error e => (s, .error e)

/-- The session with a new token under a name. -/
def newToken (s : Session) (name : String) : Session :=
  { s with tokens := (name, s.flags.length) :: s.tokens, flags := false :: s.flags }

/-- The session with a second name for a token. -/
def shareToken (s : Session) (name existing : String) : Option Session :=
  (s.tokens.lookup existing).map fun flag => { s with tokens := (name, flag) :: s.tokens }

/-- The session with the flag of a token raised. -/
def cancel (s : Session) (name : String) : Option Session :=
  (s.tokens.lookup name).map fun flag => { s with flags := s.flags.set (s.flags.length - 1 - flag) true }

/-- The flag of a token has been raised. -/
def isCancelled (s : Session) (name : String) : Option Bool := do
  s.flags[s.flags.length - 1 - (← s.tokens.lookup name)]?

/-- The signal of a flag that does not change during a run: stop at the first checkpoint, or never. -/
def signal (raised : Bool) : StopSignal := if raised then .afterCalls 0 else .never

end Session

end Numerics
