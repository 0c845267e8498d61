import Numerics.Formula.Error

/-!
# The functions of formulas

A function has a name, perhaps other names, and a form for one argument, for two, or for each. Names are looked up
once, when a formula is compiled. Arguments at which a form is not defined give `EvalError.domain`; results that
are infinite or no number are left to the evaluation as a whole.
-/

namespace Numerics.Formula

/-- Forms for one argument. -/
inductive UnaryFunction where
  | sin | cos | tan | asin | acos | atan | sinh | cosh | tanh
  | exp | sqrt | abs | ln | log10 | floor | ceil | round
  deriving Repr, DecidableEq

/-- Forms for two arguments. -/
inductive BinaryFunction where
  | logBase | pow | roundPlaces | min | max
  deriving Repr, DecidableEq

/-- The part of a float before the point. -/
def wholePart (x : Float) : Float := if x < 0 then x.ceil else x.floor

/-- The nearest whole number, a half to the even neighbour. -/
def roundEven (x : Float) : Float :=
  if (x - wholePart x).abs == 0.5 then 2 * (x / 2).round else x.round

/-- The smaller argument; the second of equal ones, and the other one if one argument is no number. -/
def minDefined (a b : Float) : Float := if a < b || b.isNaN then a else b

/-- The larger argument; the second of equal ones, and the other one if one argument is no number. -/
def maxDefined (a b : Float) : Float := if b < a || b.isNaN then a else b

/-- The argument lies in `[-1, 1]`. -/
def inUnitInterval (x : Float) : Bool := -1 ≤ x && x ≤ 1

/-- The value if the argument is admitted, else a domain error that names the function. -/
def onDomain (admitted : Bool) (name : String) (argument value : Float) : Except EvalError Float :=
  if admitted then .ok value else .error (.domain name argument)

/-- The value for one argument. -/
def UnaryFunction.apply (x : Float) : UnaryFunction → Except EvalError Float
  | .sin => .ok x.sin
  | .cos => .ok x.cos
  | .tan => .ok x.tan
  | .asin => onDomain (inUnitInterval x) "asin" x x.asin
  | .acos => onDomain (inUnitInterval x) "acos" x x.acos
  | .atan => .ok x.atan
  | .sinh => .ok x.sinh
  | .cosh => .ok x.cosh
  | .tanh => .ok x.tanh
  | .exp => .ok x.exp
  | .sqrt => onDomain (!(x < 0)) "sqrt" x x.sqrt
  | .abs => .ok x.abs
  | .ln => onDomain (!(x ≤ 0)) "log" x x.log
  | .log10 => onDomain (!(x ≤ 0)) "log10" x x.log10
  | .floor => .ok x.floor
  | .ceil => .ok x.ceil
  | .round => .ok (roundEven x)

/-- The argument is one of 0, 1, …, 15. -/
def isPlaces (digits : Float) : Bool := digits - wholePart digits == 0 && 0 ≤ digits && digits ≤ 15

/-- The logarithm of `x` to a base. -/
def logBase (x base : Float) : Except EvalError Float :=
  if x ≤ 0 then .error (.domain "log" x)
  else onDomain (!(base ≤ 0 || base == 1)) "log base" base (x.log / base.log)

/-- The argument rounded to a number of decimal places. -/
def roundPlaces (x digits : Float) : Except EvalError Float :=
  if isPlaces digits then
    let scale := Float.ofNat (Nat.pow 10 digits.toUInt64.toNat)
    .ok (roundEven (x * scale) / scale)
  else .error (.domain "round digits" digits)

/-- The value for two arguments. -/
def BinaryFunction.apply (x y : Float) : BinaryFunction → Except EvalError Float
  | .logBase => Formula.logBase x y
  | .pow => .ok (x.pow y)
  | .roundPlaces => Formula.roundPlaces x y
  | .min => .ok (minDefined x y)
  | .max => .ok (maxDefined x y)

/-- A function with its names and forms. -/
structure Function where
  name : String
  aliases : List String
  unary : Option UnaryFunction
  binary : Option BinaryFunction
  deriving Repr

namespace Function

/-- The functions, in the order of their presentation. -/
def all : List Function := [
  ⟨"sin", [], some .sin, none⟩, ⟨"cos", [], some .cos, none⟩, ⟨"tan", [], some .tan, none⟩,
  ⟨"asin", ["arcsin"], some .asin, none⟩, ⟨"acos", ["arccos"], some .acos, none⟩,
  ⟨"atan", ["arctan"], some .atan, none⟩,
  ⟨"sinh", [], some .sinh, none⟩, ⟨"cosh", [], some .cosh, none⟩, ⟨"tanh", [], some .tanh, none⟩,
  ⟨"exp", [], some .exp, none⟩, ⟨"sqrt", [], some .sqrt, none⟩, ⟨"abs", [], some .abs, none⟩,
  ⟨"log", ["ln"], some .ln, some .logBase⟩, ⟨"log10", [], some .log10, none⟩, ⟨"pow", [], none, some .pow⟩,
  ⟨"floor", [], some .floor, none⟩, ⟨"ceil", [], some .ceil, none⟩,
  ⟨"round", [], some .round, some .roundPlaces⟩, ⟨"min", [], none, some .min⟩, ⟨"max", [], none, some .max⟩]

/-- The function goes by this name. -/
def answersTo (f : Function) (name : String) : Bool := f.name == name || f.aliases.contains name

/-- The function of a name. -/
def named? (name : String) : Option Function := all.find? (·.answersTo name)

/-- The numbers of arguments the function takes, in words. -/
def arity (f : Function) : String :=
  match f.unary, f.binary with
  | some _, some _ => "1 or 2"
  | some _, none => "1"
  | none, some _ => "2"
  | none, none => "0"

/-- The name is that of a function with a form for two arguments. -/
def takesTwo (name : String) : Bool := (named? name).any (·.binary.isSome)

end Function

/-! ## Lemmas -/

theorem answersTo_iff {f : Function} {name : String} : f.answersTo name = true ↔ name ∈ f.name :: f.aliases := by
  rw [Function.answersTo, Bool.or_eq_true, beq_iff_eq, List.contains_iff_mem, List.mem_cons, eq_comm]

theorem mem_names_of_named? {name : String} {f : Function} (h : Function.named? name = some f) :
    f ∈ Function.all ∧ name ∈ f.name :: f.aliases := by
  unfold Function.named? at h
  have hname := List.find?_some h
  exact ⟨List.mem_of_find?_eq_some h, answersTo_iff.mp hname⟩

/-- No two functions share a name. -/
theorem names_apart :
    Function.all.Pairwise fun f g => ∀ name ∈ f.name :: f.aliases, name ∉ g.name :: g.aliases := by
  decide

theorem named?_eq_some_iff {name : String} {f : Function} :
    Function.named? name = some f ↔ f ∈ Function.all ∧ name ∈ f.name :: f.aliases := by
  refine ⟨mem_names_of_named?, ?_⟩
  rintro ⟨hf, hname⟩
  obtain ⟨before, after, hall⟩ := List.append_of_mem hf
  have hapart := names_apart
  rw [hall, List.pairwise_append] at hapart
  refine List.find?_eq_some_iff_append.mpr ⟨answersTo_iff.mpr hname, before, after, hall, fun g hg => ?_⟩
  rw [Bool.not_eq_true']
  refine Bool.eq_false_iff.mpr fun hanswers => ?_
  exact hapart.2.2 g hg f List.mem_cons_self name (answersTo_iff.mp hanswers) hname

end Numerics.Formula
