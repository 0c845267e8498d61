import Numerics.Integral.Sum

/-!
# Adaptive integration

A rule's count grows until two successive values differ by no more than the tolerance. For Simpson's rule, which may
agree by chance, the value with two subintervals more has to agree still better; if it does not, the run goes on.
A run ends without convergence when it has made all its rounds, or when its next count would exceed the cap.
-/

namespace Numerics.Integral

open Query Scalar

variable {α : Type} [Scalar α]

/-- What an adaptive run is asked for: the tolerance, and the count to start with. -/
structure Settings (α : Type) where
  epsilon : α
  initialCount : UInt64
  deriving Repr

/-- The settings where nothing else is asked for. -/
def Settings.default : Settings α := { epsilon := place 4, initialCount := 1 }

/-- The settings can be met. -/
def Settings.validate (s : Settings α) : Except (InputError α) Unit := do
  checkEpsilon s.epsilon
  checkSubintervals s.initialCount.toNat

/-- The change of the value since the newest entry of a history. -/
def change? (history : List (UInt64 × α)) (value : α) : Option α :=
  history.head?.map fun previous => Scalar.abs (value - previous.2)

/-- A value that has changed by no more than the tolerance is accepted; that of Simpson's rule only if two more
subintervals change it by no more than a hundredth of the tolerance. -/
def accepts (rule : Rule) (epsilon : α) (n : UInt64) (value : α) (change : Option α) : Query UInt64 α Bool :=
  if change.any (· ≤ epsilon) then
    match rule with
    | .simpson => do
      let confirmation ← request (n + 2)
      return Scalar.abs (confirmation - value) ≤ epsilon * place 2
    | _ => done true
  else done false

/-- Rounds with growing counts from `n`, at most `fuel` of them, which ask for the sums of the rule by their counts;
the history, newest entry first, and whether its last value was accepted. Each round lets itself be stopped before
it starts. -/
def rounds (rule : Rule) (epsilon : α) :
    Nat → UInt64 → List (UInt64 × α) → Query UInt64 α (List (UInt64 × α) × Bool)
  | 0, _, history => done (history, false)
  | fuel + 1, n, history => do
    check
    let value ← request n
    let accepted ← accepts rule epsilon n value (change? history value)
    if accepted then return ((n, value) :: history, true)
    else if rule.cap < rule.grow n then return ((n, value) :: history, false)
    else rounds rule epsilon fuel (rule.grow n) ((n, value) :: history)

/-- The schedule of an adaptive run. -/
def schedule (s : Settings α) (rule : Rule) : Query UInt64 α (List (UInt64 × α) × Bool) :=
  rounds rule s.epsilon rule.maxRounds (rule.startingCount s.initialCount) []

/-- The change between the two newest values of a history. -/
def lastChange? : List (UInt64 × α) → Option α
  | (_, last) :: (_, before) :: _ => some (Scalar.abs (last - before))
  | _ => none

/-- The estimate of an adaptive run of a rule. -/
def adaptiveEstimate (a b : α) (s : Settings α) (rule : Rule) : Query α α (Estimate α) := do
  let ((history, converged), evaluations) ← ((schedule s rule).expand (compositeSum rule a b)).counted
  let (n, value) := history.head?.getD (rule.startingCount s.initialCount, undefined)
  return { rule, value, n, error? := lastChange? history, converged, history := history.reverse, evaluations }

/-- The estimates of the rules in order, after those in `estimates`, newest first. -/
def adaptiveEstimates (a b : α) (s : Settings α) (estimates : List (Estimate α)) :
    List Rule → Query α α (Outcome α (List (Estimate α)))
  | [] => done (.ok estimates.reverse)
  | rule :: rules => do
    let e ← adaptiveEstimate a b s rule
    adaptiveEstimates a b s (e :: estimates) rules

/-- The integral of `f` over `[a, b]` by each rule with growing counts, unless the signal stops it. -/
def integrateAdaptive (f : α → α) (a b : α) (s : Settings α) (rules : List Rule) (stop : StopSignal) :
    Outcome α (List (Estimate α)) := do
  checked (checkInterval a b)
  checked s.validate
  Search.runUnder (adaptiveEstimates a b s [] rules) (.line f) stop

end Numerics.Integral
