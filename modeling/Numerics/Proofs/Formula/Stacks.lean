import Mathlib.Data.List.Infix
import Numerics.Proofs.Formula.Evaluation

/-!
# The stacks of a run

An instruction takes its operands from the stack, one after the other, and then puts one value (`Instr.step_eq`).  So the stacks
of a run are known one by one, those within an instruction included (`runStacks`); the last one is the stack that the machine
leaves, also where it fails (`getLast?_runStacks`).  An instruction that finds its operands on the stack fails only for a function
that it calls or for a variable without a value (`fails_of_leaves_singleton`).
-/

namespace Numerics.Formula

open Machine

/-! ### Operands -/

/-- Takes a number of values from the stack, one after the other. -/
def Machine.popMany : ℕ → Machine (List Float)
  | 0 => pure []
  | n + 1 => do
    let v ← pop
    return v :: (← popMany n)

/-- The stack that a computation leaves, also where it fails. -/
def Machine.left {α : Type} (m : Machine α) (stack : List Float) : List Float :=
  match m.run stack with
  | .ok _ rest => rest
  | .error _ rest => rest

namespace Instr

/-- The number of values that an instruction takes from the stack. -/
def operands : Instr → ℕ
  | const _ | var _ => 0
  | neg | call1 _ => 1
  | add | sub | mul | div | call2 _ => 2

/-- The value that an instruction puts on the stack for those that it takes, the one from the top first. -/
def put (A : Arithmetic) (values : List Float) : Instr → List Float → Except EvalError Float
  | const v, [] => .ok v
  | var k, [] => match values[k]? with
    | some v => .ok v
    | none => .error .malformed
  | add, [b, a] => .ok (A.add a b)
  | sub, [b, a] => .ok (A.sub a b)
  | mul, [b, a] => .ok (A.mul a b)
  | div, [b, a] => .ok (A.div a b)
  | neg, [a] => .ok (A.neg a)
  | call1 f, [x] => A.unary f x
  | call2 f, [y, x] => A.binary f x y
  | _, _ => .error .malformed

/-- A function fails that the instruction calls with the values on top of the stack. -/
inductive FunctionFails (A : Arithmetic) : Instr → List Float → Prop where
  | unary {f : UnaryFunction} {x : Float} {stack : List Float} {e : EvalError} :
      A.unary f x = .error e → FunctionFails A (call1 f) (x :: stack)
  | binary {f : BinaryFunction} {x y : Float} {stack : List Float} {e : EvalError} :
      A.binary f x y = .error e → FunctionFails A (call2 f) (y :: x :: stack)

/-- The instruction reads a variable that has no value. -/
inductive VariableFails (values : List Float) : Instr → List Float → Prop where
  | missing {k : ℕ} {stack : List Float} : values.length ≤ k → VariableFails values (var k) stack

end Instr

section Operands

variable {A : Arithmetic} {values stack : List Float} {i : Instr}

theorem popMany_eq {n : ℕ} (h : n ≤ stack.length) : popMany n stack = .ok (stack.take n) (stack.drop n) := by
  induction n generalizing stack with
  | zero => rfl
  | succ n ih =>
    obtain ⟨v, rest, rfl⟩ := List.exists_cons_of_length_pos (Nat.zero_lt_of_lt h)
    simp only [popMany, pop, bind, EStateM.bind, ih (Nat.le_of_succ_le_succ h)]
    rfl

/-- **Instructions.** Each one takes its operands one after the other, and then puts one value. -/
theorem Instr.step_eq (A : Arithmetic) (values : List Float) (i : Instr) :
    i.step A values = (do
      let taken ← popMany i.operands
      push (← lift (i.put A values taken))) := by
  funext stack
  cases i with
  | const v => rfl
  | var k =>
    simp only [step, put, operands, popMany, bind, EStateM.bind, pure, EStateM.pure]
    cases values[k]? <;> rfl
  | neg =>
    cases stack <;> rfl
  | call1 f =>
    cases stack <;> rfl
  | add | sub | mul | div | call2 f =>
    rcases stack with _ | ⟨b, _ | ⟨a, stack⟩⟩ <;> rfl

theorem leaves_singleton (h : i.operands ≤ stack.length) :
    leaves A values [i] stack = (i.put A values (stack.take i.operands)).map (· :: stack.drop i.operands) := by
  simp only [leaves, runInstrs, EStateM.run, Instr.step_eq, bind, EStateM.bind, popMany_eq h, lift]
  cases i.put A values (stack.take i.operands) <;> rfl

theorem popMany_of_lt {n : ℕ} (h : stack.length < n) : popMany n stack = .error .malformed [] := by
  induction n generalizing stack with
  | zero => exact absurd h (Nat.not_lt_zero _)
  | succ n ih =>
    cases stack with
    | nil => rfl
    | cons v rest => simp only [popMany, pop, bind, EStateM.bind, ih (Nat.lt_of_succ_lt_succ h)]

/-- An instruction that fails has taken its operands, as many as there are. -/
theorem eq_drop_of_step_error {rest : List Float} {e : EvalError} (h : i.step A values stack = .error e rest) :
    rest = stack.drop i.operands := by
  rw [Instr.step_eq] at h
  rcases le_or_gt i.operands stack.length with hle | hlt
  · simp only [bind, EStateM.bind, popMany_eq hle, lift] at h
    cases hput : i.put A values (stack.take i.operands) with
    | ok v =>
      rw [hput] at h
      cases h
    | error e' =>
      rw [hput] at h
      cases h
      rfl
  · simp only [bind, EStateM.bind, popMany_of_lt hlt] at h
    cases h
    exact (List.drop_eq_nil_of_le hlt.le).symm

theorem length_of_leaves_singleton {rest : List Float} (h : i.operands ≤ stack.length)
    (hrest : leaves A values [i] stack = .ok rest) : rest.length + i.operands = stack.length + 1 := by
  rw [leaves_singleton h, map_eq_ok_iff] at hrest
  obtain ⟨v, -, rfl⟩ := hrest
  rw [List.length_cons, List.length_drop]
  omega

theorem exists_cons_cons (h : 2 ≤ stack.length) : ∃ b a rest, stack = b :: a :: rest := by
  obtain ⟨b, rest, rfl⟩ := List.exists_cons_of_length_pos (Nat.zero_lt_of_lt h)
  obtain ⟨a, rest, rfl⟩ := List.exists_cons_of_length_pos (Nat.lt_of_succ_lt_succ h)
  exact ⟨b, a, rest, rfl⟩

/-- An instruction that finds its operands fails only for a function or for a variable. -/
theorem fails_of_leaves_singleton {e : EvalError} (h : i.operands ≤ stack.length)
    (herror : leaves A values [i] stack = .error e) : i.FunctionFails A stack ∨ i.VariableFails values stack := by
  rw [leaves_singleton h, map_eq_error_iff] at herror
  cases i with
  | const v => cases herror
  | var k =>
    refine .inr (.missing (List.getElem?_eq_none_iff.mp ?_))
    simp only [Instr.operands, List.take_zero, Instr.put] at herror
    split at herror
    · cases herror
    · assumption
  | neg =>
    obtain ⟨a, rest, rfl⟩ := List.exists_cons_of_length_pos h
    cases herror
  | call1 f =>
    obtain ⟨x, rest, rfl⟩ := List.exists_cons_of_length_pos h
    exact .inl (.unary herror)
  | call2 f =>
    obtain ⟨y, x, rest, rfl⟩ := exists_cons_cons h
    exact .inl (.binary herror)
  | add | sub | mul | div =>
    obtain ⟨b, a, rest, rfl⟩ := exists_cons_cons h
    cases herror

end Operands

/-! ### The stacks of a run -/

/-- The stacks of a run: the one it starts with, and one after each value that is taken or put.  The tails are those of an
instruction that takes its operands before it puts its value (`Instr.step_eq`). -/
def runStacks (A : Arithmetic) (values : List Float) : List Instr → List Float → List (List Float)
  | [], stack => [stack]
  | i :: is, stack => stack.tails.take (i.operands + 1) ++
      match leaves A values [i] stack with
      | .ok rest => runStacks A values is rest
      | .error _ => []

/-- A run comes to an instruction, with a stack, where something holds. -/
def Meets (A : Arithmetic) (values : List Float) (P : Instr → List Float → Prop) (is : List Instr) : Prop :=
  ∃ before i after stack, is = before ++ i :: after ∧ leaves A values before [] = .ok stack ∧ P i stack

section Stacks

variable {A : Arithmetic} {values stack s : List Float} {is js : List Instr} {i : Instr}

theorem self_mem_runStacks (is : List Instr) (stack : List Float) : stack ∈ runStacks A values is stack := by
  cases is with
  | nil => exact List.mem_singleton_self stack
  | cons i is => cases stack <;> simp [runStacks]

/-- The stacks of a longer run are those of its first part, and those of the second part if the run comes to it. -/
theorem mem_runStacks_append : s ∈ runStacks A values (is ++ js) stack ↔
    s ∈ runStacks A values is stack ∨ ∃ rest, leaves A values is stack = .ok rest ∧ s ∈ runStacks A values js rest := by
  induction is generalizing stack with
  | nil =>
    constructor
    · exact fun h => .inr ⟨stack, rfl, h⟩
    · rintro (h | ⟨rest, hrest, h⟩)
      · rw [List.mem_singleton.mp h]
        exact self_mem_runStacks js stack
      · cases hrest
        exact h
  | cons i is ih =>
    simp only [List.cons_append, runStacks, List.mem_append]
    rw [leaves_cons i is]
    cases leaves A values [i] stack with
    | error e => simp
    | ok rest => simp only [ih, ok_bind, or_assoc]

/-- The stacks of an instruction: those as it takes its operands, and the one that it leaves. -/
theorem mem_runStacks_singleton : s ∈ runStacks A values [i] stack ↔
    s ∈ stack.tails.take (i.operands + 1) ∨ leaves A values [i] stack = .ok s := by
  simp only [runStacks, List.mem_append]
  cases leaves A values [i] stack with
  | error e => simp
  | ok rest => simp [eq_comm]

theorem getLast?_take_tails (n : ℕ) (stack : List Float) : (stack.tails.take (n + 1)).getLast? = some (stack.drop n) := by
  induction n generalizing stack with
  | zero => cases stack <;> simp
  | succ n ih =>
    cases stack with
    | nil => simp
    | cons v rest =>
      rw [List.tails_cons, List.take_succ_cons, List.getLast?_cons, ih]
      rfl

theorem runStacks_ne_nil (is : List Instr) (stack : List Float) : runStacks A values is stack ≠ [] :=
  List.ne_nil_of_mem (self_mem_runStacks is stack)

/-- **The last stack** of a run is the one that the machine leaves, also where it fails. -/
theorem getLast?_runStacks (is : List Instr) (stack : List Float) :
    (runStacks A values is stack).getLast? = some ((runInstrs A values is).left stack) := by
  induction is generalizing stack with
  | nil => rfl
  | cons i is ih =>
    simp only [runStacks, leaves, left, runInstrs, EStateM.run, bind, EStateM.bind]
    cases hstep : i.step A values stack with
    | ok u rest =>
      show (_ ++ runStacks A values is rest).getLast? = some ((runInstrs A values is).left rest)
      rw [List.getLast?_append_of_ne_nil _ (runStacks_ne_nil is rest), ih]
    | error e rest =>
      show (_ ++ []).getLast? = some rest
      rw [List.append_nil, getLast?_take_tails, eq_drop_of_step_error hstep]

theorem length_le_of_mem_take_tails {n : ℕ} (h : s ∈ stack.tails.take n) : s.length ≤ stack.length :=
  ((List.mem_tails s stack).mp (List.mem_of_mem_take h)).length_le

theorem Meets.append {P : Instr → List Float → Prop} (h : Meets A values P is) : Meets A values P (is ++ js) := by
  obtain ⟨before, i, after, stack, rfl, hrun, hi⟩ := h
  exact ⟨before, i, after ++ js, stack, by simp, hrun, hi⟩

theorem Meets.last {P : Instr → List Float → Prop} (hrun : leaves A values is [] = .ok stack) (hi : P i stack) :
    Meets A values P (is ++ [i]) :=
  ⟨is, i, [], stack, rfl, hrun, hi⟩

end Stacks

end Numerics.Formula
