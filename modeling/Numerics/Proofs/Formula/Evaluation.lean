import Mathlib.Data.List.Basic
import Numerics.Formula.Program
import Numerics.Proofs.Outcome

/-!
# Programs compute the values of their trees

`Expr.value` evaluates a tree directly: operands and arguments from left to right, each name as the last variable
declared under it and else as a constant, and the first failure ends the evaluation.  `execute_eq_result`: on every
stack, the program of a tree gives exactly this value if it is finite, whatever the operators and the functions
compute.

The induction is on the tree, for code that is appended to any code and runs on any stack (`Appends`): a tree's
instructions push its value, those of a list of trees push all their values.
-/

namespace Numerics.Formula

open Machine

/-! ### Direct evaluation -/

/-- What a name stands for: the last variable declared under it, else a constant. -/
def nameValue (names : List String) (values : List Float) (name : String) : Except EvalError Float :=
  match (names.zip values).reverse.lookup name, constant? name with
  | some v, _ => .ok v
  | none, some v => .ok v
  | none, none => .error .malformed

/-- A value, if it is finite. -/
def finite (v : Float) : Except EvalError Float := if v.isFinite then .ok v else .error .nonFinite

namespace Arithmetic

variable (A : Arithmetic)

/-- The value of an operator with two operands. -/
def operate (op : Char) (a b : Float) : Except EvalError Float :=
  match op with
  | '+' => .ok (A.add a b)
  | '-' => .ok (A.sub a b)
  | '*' => .ok (A.mul a b)
  | '/' => .ok (A.div a b)
  | _ => .error .malformed

/-- The value of a function: of its form for one argument, or of its form for two. -/
def apply (f : Function) : List Float → Except EvalError Float
  | [x] => match f.unary with
    | some g => A.unary g x
    | none => .error .malformed
  | [x, y] => match f.binary with
    | some g => A.binary g x y
    | none => .error .malformed
  | _ => .error .malformed

/-- No function fails as a broken program does. -/
def Wellmade : Prop :=
  (∀ f x, A.unary f x ≠ .error .malformed) ∧ ∀ f x y, A.binary f x y ≠ .error .malformed

end Arithmetic

namespace Expr

variable (A : Arithmetic) (names : List String) (values : List Float)

mutual

/-- The value of a tree. -/
def value : Expr → Except EvalError Float
  | number v => .ok v
  | symbol name => nameValue names values name
  | binary left op right => do
    let a ← left.value
    let b ← right.value
    A.operate op a b
  | unary _ operand => do return A.neg (← operand.value)
  | call name arguments => do
    let xs ← valueAll arguments
    match Function.named? name with
    | some f => A.apply f xs
    | none => .error .malformed

/-- The values of trees in order. -/
def valueAll : List Expr → Except EvalError (List Float)
  | [] => .ok []
  | e :: es => do
    let x ← e.value
    return x :: (← valueAll es)

end

/-- The value of a tree, if it is finite. -/
def result (e : Expr) : Except EvalError Float := e.value A names values >>= finite

end Expr

/-! ### Steps of the compiler -/

section Compiling

variable {names : List String} {c c' : Code}

theorem compileAfter_symbol {name : String} :
    (Expr.symbol name).compileAfter names c = .ok c' ↔ ∃ i, resolve names name = .ok i ∧ c.emitPush i = c' := by
  simp only [Expr.compileAfter, bind_eq_ok_iff, pure_eq_ok, Except.ok.injEq]

theorem compileAfter_binary {left right : Expr} {op : Char} :
    (Expr.binary left op right).compileAfter names c = .ok c' ↔
      ∃ c₁, left.compileAfter names c = .ok c₁ ∧ ∃ c₂, right.compileAfter names c₁ = .ok c₂ ∧
        ∃ i, operator op = .ok i ∧ c₂.emitMerge i = c' := by
  simp only [Expr.compileAfter, bind_eq_ok_iff, pure_eq_ok, Except.ok.injEq]

theorem compileAfter_unary {op : Char} {operand : Expr} :
    (Expr.unary op operand).compileAfter names c = .ok c' ↔
      ∃ c₁, operand.compileAfter names c = .ok c₁ ∧ c₁.emit .neg = c' := by
  simp only [Expr.compileAfter, bind_eq_ok_iff, pure_eq_ok, Except.ok.injEq]

theorem compileAfter_call {name : String} {arguments : List Expr} :
    (Expr.call name arguments).compileAfter names c = .ok c' ↔
      ∃ f, Function.named? name = some f ∧ ∃ c₁, Expr.compileAllAfter names c arguments = .ok c₁ ∧
        c₁.emitCall f name arguments.length = .ok c' := by
  cases h : Function.named? name <;> simp [Expr.compileAfter, h, bind_eq_ok_iff]

theorem compileAllAfter_cons {e : Expr} {es : List Expr} :
    Expr.compileAllAfter names c (e :: es) = .ok c' ↔
      ∃ c₁, e.compileAfter names c = .ok c₁ ∧ Expr.compileAllAfter names c₁ es = .ok c' := by
  simp only [Expr.compileAllAfter, bind_eq_ok_iff]

end Compiling

/-! ### Instructions on a stack -/

section Instructions

variable {A : Arithmetic} {values : List Float}

/-- The stack that instructions leave. -/
def leaves (A : Arithmetic) (values : List Float) (is : List Instr) (stack : List Float) :
    Except EvalError (List Float) :=
  match (runInstrs A values is).run stack with
  | .ok _ rest => .ok rest
  | .error e _ => .error e

theorem leaves_cons (i : Instr) (is : List Instr) (stack : List Float) :
    leaves A values (i :: is) stack = leaves A values [i] stack >>= leaves A values is := by
  simp only [leaves, runInstrs, EStateM.run, bind, EStateM.bind, pure, EStateM.pure]
  cases i.step A values stack <;> rfl

theorem leaves_append (is js : List Instr) (stack : List Float) :
    leaves A values (is ++ js) stack = leaves A values is stack >>= leaves A values js := by
  induction is generalizing stack with
  | nil => rfl
  | cons i is ih =>
    rw [List.cons_append, leaves_cons, leaves_cons i is]
    cases leaves A values [i] stack with
    | error e => rfl
    | ok rest => exact ih rest

theorem leaves_const (v : Float) (stack : List Float) : leaves A values [.const v] stack = .ok (v :: stack) := rfl

theorem leaves_var {i : Nat} {v : Float} (h : values[i]? = some v) (stack : List Float) :
    leaves A values [.var i] stack = .ok (v :: stack) := by
  simp [leaves, runInstrs, Instr.step, h, push, EStateM.run, bind, EStateM.bind, pure, EStateM.pure]

theorem leaves_neg (a : Float) (stack : List Float) : leaves A values [.neg] (a :: stack) = .ok (A.neg a :: stack) := rfl

theorem leaves_call1 (g : UnaryFunction) (x : Float) (stack : List Float) :
    leaves A values [.call1 g] (x :: stack) = (A.unary g x).map (· :: stack) := by
  simp only [leaves, runInstrs, Instr.step, pop, push, lift, EStateM.run, bind, EStateM.bind, pure, EStateM.pure]
  cases A.unary g x <;> rfl

theorem leaves_call2 (g : BinaryFunction) (x y : Float) (stack : List Float) :
    leaves A values [.call2 g] (y :: x :: stack) = (A.binary g x y).map (· :: stack) := by
  simp only [leaves, runInstrs, Instr.step, combine, pop, push, lift, EStateM.run, bind, EStateM.bind, pure,
    EStateM.pure]
  cases A.binary g x y <;> rfl

/-- The instruction of an operator takes the right operand from the top and the left one from below it. -/
theorem leaves_operator {op : Char} {i : Instr} (h : operator op = .ok i) (a b : Float) (stack : List Float) :
    leaves A values [i] (b :: a :: stack) = (A.operate op a b).map (· :: stack) := by
  unfold operator at h
  split at h <;> cases h <;> rfl

theorem operate_ne_malformed {op : Char} {i : Instr} (h : operator op = .ok i) (a b : Float) :
    A.operate op a b ≠ .error .malformed := by
  unfold operator at h
  split at h <;> first | cases h; done | exact fun hm => nomatch hm

end Instructions

/-! ### Names -/

theorem lastIndex?_lt {name : String} {names : List String} {i : Nat} (h : lastIndex? name names = some i) :
    i < names.length := by
  induction names generalizing i with
  | nil => cases h
  | cons v vs ih =>
    simp only [lastIndex?] at h
    split at h
    · next j hj =>
      cases h
      exact Nat.succ_lt_succ (ih hj)
    · split at h <;> cases h
      exact Nat.zero_lt_succ _

/-- The last declaration of a name is the first one from the end. -/
theorem lookup_reverse_zip (name : String) {names : List String} {values : List Float}
    (h : values.length = names.length) :
    (names.zip values).reverse.lookup name = (lastIndex? name names).bind (values[·]?) := by
  induction names generalizing values with
  | nil => simp [lastIndex?]
  | cons v vs ih =>
    obtain ⟨x, xs, rfl⟩ := List.exists_cons_of_length_eq_add_one h
    have hxs : xs.length = vs.length := Nat.succ.inj h
    rw [List.zip_cons_cons, List.reverse_cons, List.lookup_append, ih hxs]
    simp only [lastIndex?]
    cases hi : lastIndex? name vs with
    | some i =>
      have hlt : i < xs.length := hxs ▸ lastIndex?_lt hi
      simp [hlt]
    | none =>
      by_cases hv : v = name
      · simp [hv]
      · simp [hv, List.lookup_cons, beq_false_of_ne (Ne.symm hv)]

/-- The instruction of a name pushes what the name stands for. -/
theorem resolve_leaves {names : List String} {name : String} {i : Instr} (h : resolve names name = .ok i)
    {values : List Float} (hv : values.length = names.length) :
    ∃ v, nameValue names values name = .ok v ∧
      ∀ A stack, leaves A values [i] stack = .ok (v :: stack) := by
  unfold resolve at h
  unfold nameValue
  rw [lookup_reverse_zip name hv]
  cases hj : lastIndex? name names with
  | some j =>
    rw [hj] at h
    cases h
    have hlt : j < values.length := hv ▸ lastIndex?_lt hj
    have hget : values[j]? = some values[j] := List.getElem?_eq_getElem hlt
    rw [Option.bind_some, hget]
    exact ⟨values[j], rfl, fun A stack => leaves_var hget stack⟩
  | none =>
    rw [hj] at h
    cases hc : constant? name with
    | some v =>
      rw [hc] at h
      cases h
      exact ⟨v, rfl, fun A stack => leaves_const v stack⟩
    | none =>
      rw [hc] at h
      simp only at h
      split at h <;> cases h

/-! ### Calls -/

theorem length_of_valueAll {A : Arithmetic} {names : List String} {values : List Float} {es : List Expr}
    {xs : List Float} (h : Expr.valueAll A names values es = .ok xs) : xs.length = es.length := by
  induction es generalizing xs with
  | nil =>
    cases h
    rfl
  | cons e es ih =>
    simp only [Expr.valueAll, bind_eq_ok_iff, pure_eq_ok, Except.ok.injEq] at h
    obtain ⟨x, -, ys, hys, rfl⟩ := h
    rw [List.length_cons, List.length_cons, ih hys]

/-- The instruction of a call takes the arguments, the last one from the top, and pushes the function's value. -/
theorem emitCall_leaves {c c' : Code} {f : Function} {name : String} {count : Nat}
    (h : c.emitCall f name count = .ok c') :
    ∃ i, c'.instrs.toList = c.instrs.toList ++ [i] ∧ ∀ A values xs stack, xs.length = count →
      leaves A values [i] (xs.reverse ++ stack) = (A.apply f xs).map (· :: stack) ∧
      (A.Wellmade → A.apply f xs ≠ .error .malformed) := by
  unfold Code.emitCall at h
  split at h
  · next _ g hg =>
    cases h
    refine ⟨.call1 g, by simp [Code.emit], fun A values xs stack hx => ?_⟩
    obtain ⟨x, rfl⟩ := List.length_eq_one_iff.mp hx
    simp only [Arithmetic.apply, hg]
    exact ⟨leaves_call1 g x stack, fun hA => hA.1 g x⟩
  · next g hg =>
    cases h
    refine ⟨.call2 g, by simp [Code.emitMerge, Code.emit], fun A values xs stack hx => ?_⟩
    obtain ⟨x, y, rfl⟩ := List.length_eq_two.mp hx
    simp only [Arithmetic.apply, hg]
    exact ⟨leaves_call2 g x y stack, fun hA => hA.2 g x y⟩
  · cases h

/-! ### Trees -/

section Trees

variable {names : List String} {values : List Float}

/-- The code `c'` is `c` with instructions that push values, the last one on top, or fail as their evaluation does. -/
def Appends (values : List Float) (c c' : Code) (pushed : Arithmetic → Except EvalError (List Float)) : Prop :=
  ∃ is, c'.instrs.toList = c.instrs.toList ++ is ∧
    ∀ A stack, leaves A values is stack = (pushed A).map fun xs => xs.reverse ++ stack

theorem appends_emitPush (c : Code) {i : Instr} {v : Float}
    (h : ∀ A stack, leaves A values [i] stack = .ok (v :: stack)) :
    Appends values c (c.emitPush i) fun _ => .ok [v] :=
  ⟨[i], by simp [Code.emitPush], h⟩

mutual

/-- **The instructions of a tree push its value**, whatever code they follow. -/
theorem compileAfter_appends (hv : values.length = names.length) {c c' : Code} :
    ∀ {e : Expr}, e.compileAfter names c = .ok c' →
      Appends values c c' fun A => (e.value A names values).map ([·])
  | .number v, h => by
    cases h
    exact appends_emitPush c fun A stack => leaves_const v stack
  | .symbol name, h => by
    obtain ⟨i, hi, rfl⟩ := compileAfter_symbol.mp h
    obtain ⟨v, hn, hl⟩ := resolve_leaves hi hv
    simp only [Expr.value, hn]
    exact appends_emitPush c hl
  | .binary left op right, h => by
    obtain ⟨c₁, hl, c₂, hr, i, hi, rfl⟩ := compileAfter_binary.mp h
    obtain ⟨is, h₁, ih₁⟩ := compileAfter_appends hv hl
    obtain ⟨js, h₂, ih₂⟩ := compileAfter_appends hv hr
    refine ⟨is ++ js ++ [i], by simp [Code.emitMerge, Code.emit, h₂, h₁], fun A stack => ?_⟩
    rw [leaves_append, leaves_append, ih₁]
    simp only [Expr.value]
    cases left.value A names values with
    | error err => rfl
    | ok a =>
      show leaves A values js (a :: stack) >>= leaves A values [i] = _
      simp only [ih₂, ok_bind]
      cases right.value A names values with
      | error err => rfl
      | ok b =>
        show leaves A values [i] (b :: a :: stack) = _
        rw [leaves_operator hi, ok_bind]
        cases A.operate op a b <;> rfl
  | .unary op operand, h => by
    obtain ⟨c₁, ho, rfl⟩ := compileAfter_unary.mp h
    obtain ⟨is, h₁, ih⟩ := compileAfter_appends hv ho
    refine ⟨is ++ [.neg], by simp [Code.emit, h₁], fun A stack => ?_⟩
    rw [leaves_append, ih]
    simp only [Expr.value]
    cases operand.value A names values with
    | error err => rfl
    | ok a => exact @leaves_neg A values a stack
  | .call name arguments, h => by
    obtain ⟨f, hf, c₁, ha, hc⟩ := compileAfter_call.mp h
    obtain ⟨is, h₁, ih⟩ := compileAllAfter_appends hv ha
    obtain ⟨i, h₂, hi⟩ := emitCall_leaves hc
    refine ⟨is ++ [i], by simp [h₂, h₁], fun A stack => ?_⟩
    rw [leaves_append, ih]
    simp only [Expr.value, hf]
    cases hx : Expr.valueAll A names values arguments with
    | error err => rfl
    | ok xs =>
      show leaves A values [i] (xs.reverse ++ stack) = _
      rw [(hi A values xs stack (length_of_valueAll hx)).1, ok_bind]
      cases A.apply f xs <;> rfl

/-- The instructions of trees push their values in order. -/
theorem compileAllAfter_appends (hv : values.length = names.length) {c c' : Code} :
    ∀ {es : List Expr}, Expr.compileAllAfter names c es = .ok c' →
      Appends values c c' fun A => Expr.valueAll A names values es
  | [], h => by
    cases h
    exact ⟨[], by simp, fun A stack => rfl⟩
  | e :: es, h => by
    obtain ⟨c₁, he, hs⟩ := compileAllAfter_cons.mp h
    obtain ⟨is, h₁, ih₁⟩ := compileAfter_appends hv he
    obtain ⟨js, h₂, ih₂⟩ := compileAllAfter_appends hv hs
    refine ⟨is ++ js, by simp [h₂, h₁], fun A stack => ?_⟩
    rw [leaves_append, ih₁]
    simp only [Expr.valueAll]
    cases e.value A names values with
    | error err => rfl
    | ok x =>
      show leaves A values js (x :: stack) = _
      simp only [ih₂, ok_bind]
      cases Expr.valueAll A names values es <;> simp

end

variable {A : Arithmetic}

mutual

/-- The evaluation of a tree that compiles fails in its functions only. -/
theorem value_ne_malformed (hA : A.Wellmade) (hv : values.length = names.length) {c c' : Code} :
    ∀ {e : Expr}, e.compileAfter names c = .ok c' → e.value A names values ≠ .error .malformed
  | .number v, _ => nofun
  | .symbol name, h => by
    obtain ⟨i, hi, -⟩ := compileAfter_symbol.mp h
    obtain ⟨v, hn, -⟩ := resolve_leaves hi hv
    rw [Expr.value, hn]
    exact nofun
  | .binary left op right, h => by
    obtain ⟨c₁, hl, c₂, hr, i, hi, -⟩ := compileAfter_binary.mp h
    simp only [Expr.value, ne_eq, bind_eq_error_iff, not_or, not_exists, not_and]
    exact ⟨value_ne_malformed hA hv hl, fun a _ =>
      ⟨value_ne_malformed hA hv hr, fun b _ => operate_ne_malformed hi a b⟩⟩
  | .unary op operand, h => by
    obtain ⟨c₁, ho, -⟩ := compileAfter_unary.mp h
    simp only [Expr.value, ne_eq, bind_eq_error_iff, not_or, not_exists, not_and]
    exact ⟨value_ne_malformed hA hv ho, fun a _ => nofun⟩
  | .call name arguments, h => by
    obtain ⟨f, hf, c₁, ha, hc⟩ := compileAfter_call.mp h
    obtain ⟨i, -, hi⟩ := emitCall_leaves hc
    simp only [Expr.value, hf, ne_eq, bind_eq_error_iff, not_or, not_exists, not_and]
    exact ⟨valueAll_ne_malformed hA hv ha, fun xs hx => (hi A values xs [] (length_of_valueAll hx)).2 hA⟩

theorem valueAll_ne_malformed (hA : A.Wellmade) (hv : values.length = names.length) {c c' : Code} :
    ∀ {es : List Expr}, Expr.compileAllAfter names c es = .ok c' →
      Expr.valueAll A names values es ≠ .error .malformed
  | [], _ => nofun
  | e :: es, h => by
    obtain ⟨c₁, he, hs⟩ := compileAllAfter_cons.mp h
    simp only [Expr.valueAll, ne_eq, bind_eq_error_iff, not_or, not_exists, not_and]
    exact ⟨value_ne_malformed hA hv he, fun x _ => ⟨valueAll_ne_malformed hA hv hs, fun xs _ => nofun⟩⟩

end

end Trees

/-! ### Programs -/

theorem finite_ne_malformed (v : Float) : finite v ≠ .error .malformed := by
  unfold finite
  split <;> exact nofun

theorem onDomain_ne_malformed (admitted : Bool) (name : String) (x v : Float) :
    onDomain admitted name x v ≠ .error .malformed := by
  unfold onDomain
  split <;> exact nofun

/-- The functions fail outside their domains only. -/
theorem float_wellmade : Arithmetic.float.Wellmade := by
  refine ⟨fun f x => ?_, fun f x y => ?_⟩
  · show f.apply x ≠ _
    cases f <;> first | exact onDomain_ne_malformed _ _ _ _ | exact nofun
  · show f.apply x y ≠ _
    cases f with
    | logBase =>
      show logBase x y ≠ _
      unfold logBase
      split
      · exact nofun
      · exact onDomain_ne_malformed _ _ _ _
    | roundPlaces =>
      show roundPlaces x y ≠ _
      unfold roundPlaces
      split <;> exact nofun
    | pow | min | max => exact nofun

/-- A program whose instructions push one value gives this value, if it is finite, and clears the stack first. -/
theorem outcome_executeOver {A : Arithmetic} {p : Program} {values : List Float} {x : Except EvalError Float}
    (h : leaves A values p.instrs [] = x.map ([·])) (stack : List Float) :
    (p.executeOver A values).outcome stack = x >>= finite := by
  have hclear : (p.executeOver A values).outcome stack = outcome (do
      runInstrs A values p.instrs
      let result ← pop
      if !(← get).isEmpty then throw EvalError.malformed
      if !result.isFinite then throw EvalError.nonFinite
      return result) [] := rfl
  rw [hclear]
  simp only [leaves, EStateM.run] at h
  simp only [outcome, EStateM.run, bind, EStateM.bind]
  cases hinstrs : runInstrs A values p.instrs [] with
  | error e rest =>
    rw [hinstrs] at h
    cases x with
    | error _ =>
      cases h
      rfl
    | ok _ => cases h
  | ok u rest =>
    rw [hinstrs] at h
    cases x with
    | error _ => cases h
    | ok v =>
      cases h
      show outcome (if !v.isFinite then EStateM.bind (throw .nonFinite) fun _ => pure v else pure v) [] = finite v
      unfold finite
      cases v.isFinite <;> rfl

/-- **Programs compute the values of their trees**: the last of equal names counts, operands and arguments are taken
from left to right, and the first failure is the outcome.  No program of a tree is a broken one. -/
theorem execute_eq_result {names : List String} {e : Expr} {p : Program} (h : e.compile names = .ok p)
    {values : List Float} (hv : values.length = names.length) (stack : List Float) :
    (∀ A : Arithmetic, (p.executeOver A values).outcome stack = e.result A names values) ∧
      (∀ A : Arithmetic, A.Wellmade → (p.executeOver A values).outcome stack ≠ .error .malformed) ∧
      (p.execute values).outcome stack ≠ .error .malformed := by
  simp only [Expr.compile, bind_eq_ok_iff, pure_eq_ok, Except.ok.injEq] at h
  obtain ⟨c, hc, rfl⟩ := h
  have hrun : ∀ A : Arithmetic, (Program.executeOver A ⟨c.instrs.toList, c.maxDepth⟩ values).outcome stack =
      e.result A names values := by
    intro A
    obtain ⟨is, his, hl⟩ := compileAfter_appends hv hc
    have hx : leaves A values c.instrs.toList [] = (e.value A names values).map ([·]) := by
      rw [his]
      simp only [Code.empty, List.nil_append, hl]
      cases e.value A names values <;> rfl
    exact outcome_executeOver hx stack
  have hne : ∀ A : Arithmetic, A.Wellmade →
      (Program.executeOver A ⟨c.instrs.toList, c.maxDepth⟩ values).outcome stack ≠ .error .malformed := by
    intro A hA
    rw [hrun A]
    simp only [Expr.result, ne_eq, bind_eq_error_iff, not_or, not_exists, not_and]
    exact ⟨value_ne_malformed hA hv hc, fun v _ => finite_ne_malformed v⟩
  exact ⟨hrun, hne, hne .float float_wellmade⟩

/-- `log(x - y, 2)` over `x`, `y` and once more `x`, of which the second counts. -/
theorem execute_log_difference :
    Expr.compile ["x", "y", "x"] (.call "log" [.binary (.symbol "x") '-' (.symbol "y"), .number 2]) =
        .ok ⟨[.var 2, .var 1, .sub, .const 2, .call2 .logBase], 2⟩ ∧
      [1, 2, 10].length = ["x", "y", "x"].length ∧
      (Program.execute ⟨[.var 2, .var 1, .sub, .const 2, .call2 .logBase], 2⟩ [1, 2, 10]).outcome [7] =
        Expr.result .float ["x", "y", "x"] [1, 2, 10]
          (.call "log" [.binary (.symbol "x") '-' (.symbol "y"), .number 2]) :=
  ⟨rfl, rfl, (execute_eq_result rfl rfl [7]).1 .float⟩

end Numerics.Formula
