import Mathlib.Logic.Relation
import Mathlib.Order.Bounds.Defs
import Numerics.Proofs.Formula.Stacks

/-!
# The height of the stack

The compiler's counter against the stacks of the machine.  Each instruction that is emitted finds its operands on the stack
(`Code.Step`, `compileAfter_steps`), and one more such instruction keeps the count true (`Code.IsMeasured.add`).  So nothing is ever
taken from a counter at zero (`compileAfter?_eq`), and `Program.maxDepth` is the greatest height of the stack on every run that is
not cut short, and a bound for the others (`maxDepth_isGreatest`).
-/

namespace Numerics.Formula

open Relation

/-! ### The compiler's count -/

/-- The compiler's step: one more instruction, which finds its operands on the stack. -/
inductive Code.Step (names : List String) : Code → Code → Prop where
  | push {c : Code} {i : Instr} : i.operands = 0 → (∀ k, i = .var k → k < names.length) → Step names c (c.emitPush i)
  | keep {c : Code} {i : Instr} : i.operands = 1 → 1 ≤ c.depth → Step names c (c.emit i)
  | merge {c : Code} {i : Instr} : i.operands = 2 → 2 ≤ c.depth → Step names c (c.emitMerge i)

/-- On any run, the code's counter is the height of the stack at the end, and its maximum is the greatest height on the way. -/
structure Code.IsMeasured (A : Arithmetic) (values : List Float) (c : Code) : Prop where
  depth_le : c.depth ≤ c.maxDepth
  height {stack : List Float} : leaves A values c.instrs.toList [] = .ok stack → stack.length = c.depth
  bounded : ∀ stack ∈ runStacks A values c.instrs.toList [], stack.length ≤ c.maxDepth
  reached {stack : List Float} : leaves A values c.instrs.toList [] = .ok stack →
    ∃ s ∈ runStacks A values c.instrs.toList [], s.length = c.maxDepth
  cut {e : EvalError} : leaves A values c.instrs.toList [] = .error e →
    Meets A values (Instr.FunctionFails A) c.instrs.toList ∨ Meets A values (Instr.VariableFails values) c.instrs.toList

section Count

variable {A : Arithmetic} {values : List Float} {names : List String} {c c' : Code} {i : Instr}

theorem isMeasured_empty : Code.empty.IsMeasured A values where
  depth_le := le_rfl
  height h := by cases h; rfl
  bounded stack h := by rw [List.mem_singleton.mp h]; exact le_rfl
  reached _ := ⟨[], List.mem_singleton_self [], rfl⟩
  cut h := by cases h

theorem Code.IsMeasured.length_last {stack rest : List Float} (h : c.IsMeasured A values) (hi : i.operands ≤ c.depth)
    (hstack : leaves A values c.instrs.toList [] = .ok stack) (hrest : leaves A values [i] stack = .ok rest) :
    rest.length + i.operands = c.depth + 1 := by
  have hfinds : i.operands ≤ stack.length := hi.trans_eq (h.height hstack).symm
  rw [length_of_leaves_singleton hfinds hrest, h.height hstack]

/-- **One more instruction** that finds its operands keeps the count true. -/
theorem Code.IsMeasured.add (h : c.IsMeasured A values) (hinstrs : c'.instrs = c.instrs.push i)
    (hi : i.operands ≤ c.depth) (hdepth : c'.depth + i.operands = c.depth + 1)
    (hmax : c'.maxDepth = max c.maxDepth c'.depth) : c'.IsMeasured A values := by
  have hlist : c'.instrs.toList = c.instrs.toList ++ [i] := by rw [hinstrs, Array.toList_push]
  have hlast : ∀ {stack rest}, leaves A values c.instrs.toList [] = .ok stack → leaves A values [i] stack = .ok rest →
      rest.length = c'.depth := by
    intro stack rest hstack hrest
    exact Nat.add_right_cancel ((h.length_last hi hstack hrest).trans hdepth.symm)
  have hdepthLe : c'.depth ≤ c'.maxDepth := hmax ▸ le_max_right _ _
  have hmaxLe : c.maxDepth ≤ c'.maxDepth := hmax ▸ le_max_left _ _
  refine ⟨hdepthLe, ?height, ?bounded, ?reached, ?cut⟩ <;> rw [hlist]
  case height =>
    intro rest hrest
    rw [leaves_append, bind_eq_ok_iff] at hrest
    obtain ⟨stack, hstack, hrest⟩ := hrest
    exact hlast hstack hrest
  case bounded =>
    intro s hs
    rcases mem_runStacks_append.mp hs with hs | ⟨stack, hstack, hs⟩
    · exact (h.bounded s hs).trans hmaxLe
    rcases mem_runStacks_singleton.mp hs with hs | hs
    · calc s.length ≤ stack.length := length_le_of_mem_take_tails hs
        _ = c.depth := h.height hstack
        _ ≤ c'.maxDepth := h.depth_le.trans hmaxLe
    · exact (hlast hstack hs).trans_le hdepthLe
  case reached =>
    intro rest hrest
    rw [leaves_append, bind_eq_ok_iff] at hrest
    obtain ⟨stack, hstack, hrest⟩ := hrest
    -- the greatest height is the one so far, or that of the stack after the instruction
    rcases le_total c'.depth c.maxDepth with hle | hle
    · obtain ⟨s, hs, hlen⟩ := h.reached hstack
      exact ⟨s, mem_runStacks_append.mpr (.inl hs), by rw [hlen, hmax, max_eq_left hle]⟩
    · refine ⟨rest, mem_runStacks_append.mpr (.inr ⟨stack, hstack, mem_runStacks_singleton.mpr (.inr hrest)⟩), ?_⟩
      rw [hlast hstack hrest, hmax, max_eq_right hle]
  case cut =>
    intro e he
    rw [leaves_append, bind_eq_error_iff] at he
    rcases he with he | ⟨stack, hstack, he⟩
    · exact (h.cut he).imp Meets.append Meets.append
    · have hfinds : i.operands ≤ stack.length := hi.trans_eq (h.height hstack).symm
      exact (fails_of_leaves_singleton hfinds he).imp (Meets.last hstack) (Meets.last hstack)

theorem Code.IsMeasured.step (h : c.IsMeasured A values) (hstep : c.Step names c') : c'.IsMeasured A values := by
  cases hstep with
  | push hi _ => exact h.add rfl (by omega) (by simp [emitPush, hi]) rfl
  | keep hi hdepth => exact h.add rfl (by omega) (by simp [emit, hi]) (max_eq_left h.depth_le).symm
  | merge hi hdepth =>
    refine h.add rfl (by omega) ?_ (max_eq_left ((Nat.sub_le _ _).trans h.depth_le)).symm
    simp only [emitMerge, hi]
    omega

/-- The variables of emitted instructions are declared. -/
theorem Code.Step.var_lt (hstep : c.Step names c') (h : ∀ k, .var k ∈ c.instrs.toList → k < names.length) :
    ∀ k, .var k ∈ c'.instrs.toList → k < names.length := by
  have hpush : ∀ {i : Instr}, (∀ k, i = .var k → k < names.length) →
      ∀ k, .var k ∈ (c.instrs.push i).toList → k < names.length := by
    intro i hi k hk
    rw [Array.toList_push, List.mem_append, List.mem_singleton] at hk
    exact hk.elim (h k) fun hk => hi k hk.symm
  cases hstep with
  | push _ hi => exact hpush hi
  | keep hi _ => exact hpush (by rintro k rfl; cases hi)
  | merge hi _ => exact hpush (by rintro k rfl; cases hi)

theorem resolve_push {name : String} (h : resolve names name = .ok i) :
    i.operands = 0 ∧ ∀ k, i = .var k → k < names.length := by
  unfold resolve at h
  split at h
  · next j _ hj =>
    cases h
    exact ⟨rfl, fun k hk => by cases hk; exact lastIndex?_lt hj⟩
  · cases h
    exact ⟨rfl, nofun⟩
  · split at h <;> cases h

theorem operands_operator {op : Char} (h : operator op = .ok i) : i.operands = 2 := by
  unfold operator at h
  split at h <;> cases h <;> rfl

theorem Code.Step.emitCall {f : Function} {name : String} {count : ℕ} (h : c.emitCall f name count = .ok c')
    (hdepth : count ≤ c.depth) : c.Step names c' ∧ c'.depth + count = c.depth + 1 := by
  unfold Code.emitCall at h
  split at h
  · cases h
    exact ⟨.keep rfl hdepth, rfl⟩
  · cases h
    refine ⟨.merge rfl hdepth, ?_⟩
    simp only [emitMerge]
    omega
  · cases h

mutual

/-- **The compiler's run.** It goes by steps that find their operands, and leaves one value more. -/
theorem compileAfter_steps {c c' : Code} :
    ∀ {e : Expr}, e.compileAfter names c = .ok c' → ReflTransGen (Code.Step names) c c' ∧ c'.depth = c.depth + 1
  | .number v, h => by
    cases h
    exact ⟨.single (.push rfl nofun), rfl⟩
  | .symbol name, h => by
    obtain ⟨i, hi, rfl⟩ := compileAfter_symbol.mp h
    obtain ⟨hoperands, hvar⟩ := resolve_push hi
    exact ⟨.single (.push hoperands hvar), rfl⟩
  | .binary left op right, h => by
    obtain ⟨c₁, hl, c₂, hr, i, hi, rfl⟩ := compileAfter_binary.mp h
    obtain ⟨hsteps₁, hdepth₁⟩ := compileAfter_steps hl
    obtain ⟨hsteps₂, hdepth₂⟩ := compileAfter_steps hr
    refine ⟨(hsteps₁.trans hsteps₂).tail (.merge (operands_operator hi) (by omega)), ?_⟩
    simp only [Code.emitMerge]
    omega
  | .unary op operand, h => by
    obtain ⟨c₁, ho, rfl⟩ := compileAfter_unary.mp h
    obtain ⟨hsteps, hdepth⟩ := compileAfter_steps ho
    exact ⟨hsteps.tail (.keep rfl (by omega)), hdepth⟩
  | .call name arguments, h => by
    obtain ⟨f, -, c₁, ha, hc⟩ := compileAfter_call.mp h
    obtain ⟨hsteps, hdepth⟩ := compileAllAfter_steps ha
    obtain ⟨hstep, hcount⟩ := Code.Step.emitCall hc (by omega)
    exact ⟨hsteps.tail hstep, by omega⟩

/-- The run over trees in order leaves a value for each. -/
theorem compileAllAfter_steps {c c' : Code} :
    ∀ {es : List Expr}, Expr.compileAllAfter names c es = .ok c' →
      ReflTransGen (Code.Step names) c c' ∧ c'.depth = c.depth + es.length
  | [], h => by
    cases h
    exact ⟨.refl, rfl⟩
  | e :: es, h => by
    obtain ⟨c₁, he, hs⟩ := compileAllAfter_cons.mp h
    obtain ⟨hsteps₁, hdepth₁⟩ := compileAfter_steps he
    obtain ⟨hsteps₂, hdepth₂⟩ := compileAllAfter_steps hs
    exact ⟨hsteps₁.trans hsteps₂, by rw [List.length_cons]; omega⟩

end

theorem isMeasured_of_steps (h : ReflTransGen (Code.Step names) .empty c) : c.IsMeasured A values := by
  induction h with
  | refl => exact isMeasured_empty
  | tail _ hstep ih => exact ih.step hstep

theorem var_lt_of_steps (h : ReflTransGen (Code.Step names) .empty c) :
    ∀ k, .var k ∈ c.instrs.toList → k < names.length := by
  induction h with
  | refl => exact fun k hk => nomatch hk
  | tail _ hstep ih => exact hstep.var_lt ih

end Count

/-! ### A counter that cannot go below zero -/

/-- One more instruction, which leaves one value fewer; `none` if the counter is at zero. -/
def Code.emitMerge? (c : Code) (i : Instr) : Option Code := if c.depth = 0 then none else some (c.emitMerge i)

/-- The code after a call; `none` if the counter would go below zero. -/
def Code.emitCall? (c : Code) (f : Function) (name : String) (count : ℕ) : ExceptT ParseError Option Code :=
  match count, f.unary, f.binary with
  | 1, some g, _ => return c.emit (.call1 g)
  | 2, _, some g => c.emitMerge? (.call2 g)
  | _, _, _ => throw (.arity name f.arity count)

namespace Expr

mutual

/-- The code with the instructions for a tree; `none` if the counter would go below zero. -/
def compileAfter? (names : List String) (c : Code) : Expr → ExceptT ParseError Option Code
  | number v => return c.emitPush (.const v)
  | symbol name => do return c.emitPush (← liftExcept (resolve names name))
  | binary left op right => do
    let c ← left.compileAfter? names c
    let c ← right.compileAfter? names c
    c.emitMerge? (← liftExcept (operator op))
  | unary _ operand => do return (← operand.compileAfter? names c).emit .neg
  | call name arguments =>
    match Function.named? name with
    | none => throw (.unknownFunction name)
    | some f => do
      let c ← compileAllAfter? names c arguments
      c.emitCall? f name arguments.length

/-- The code with the instructions for trees in order; `none` if the counter would go below zero. -/
def compileAllAfter? (names : List String) (c : Code) : List Expr → ExceptT ParseError Option Code
  | [] => return c
  | e :: es => do compileAllAfter? names (← e.compileAfter? names c) es

end

end Expr

section Counter

variable {names : List String} {c : Code} {i : Instr}

theorem some_bind {α β : Type} {x : Except ParseError α} {f : α → ExceptT ParseError Option β}
    {g : α → Except ParseError β} (h : ∀ a, x = .ok a → f a = ExceptT.mk (some (g a))) :
    (ExceptT.mk (some x) >>= f) = ExceptT.mk (some (x >>= g)) := by
  cases x with
  | error e => rfl
  | ok a => exact h a rfl

theorem liftExcept_eq_some {α : Type} (x : Except ParseError α) :
    (liftExcept x : ExceptT ParseError Option α) = ExceptT.mk (some x) := by
  cases x <;> rfl

theorem emitMerge?_eq (h : 0 < c.depth) : c.emitMerge? i = some (c.emitMerge i) := if_neg h.ne'

theorem emitCall?_eq {f : Function} {name : String} {count : ℕ} (h : count ≤ c.depth) :
    c.emitCall? f name count = ExceptT.mk (some (c.emitCall f name count)) := by
  unfold Code.emitCall? Code.emitCall
  match count with
  | 0 => rfl
  | 1 => cases f.unary <;> rfl
  | 2 =>
    cases f.binary with
    | none => rfl
    | some g =>
      show (liftM (c.emitMerge? (.call2 g)) : ExceptT ParseError Option Code) = ExceptT.mk (some (.ok (c.emitMerge (.call2 g))))
      rw [emitMerge?_eq (Nat.zero_lt_of_lt h)]
      rfl
  | count + 3 => rfl

mutual

/-- **Nothing is taken from a counter at zero**, neither for a tree that is compiled nor for one that is not. -/
theorem compileAfter?_eq (c : Code) :
    ∀ e : Expr, e.compileAfter? names c = ExceptT.mk (some (e.compileAfter names c))
  | .number v => rfl
  | .symbol name => by
    rw [Expr.compileAfter?, liftExcept_eq_some, Expr.compileAfter]
    exact some_bind fun i _ => rfl
  | .binary left op right => by
    rw [Expr.compileAfter?, compileAfter?_eq c left, Expr.compileAfter]
    refine some_bind fun c₁ h₁ => ?_
    rw [compileAfter?_eq c₁ right]
    refine some_bind fun c₂ h₂ => ?_
    -- each operand has left a value, so that one may be taken from the counter
    have hdepth₁ := (compileAfter_steps h₁).2
    have hdepth₂ := (compileAfter_steps h₂).2
    rw [liftExcept_eq_some]
    refine some_bind fun i _ => ?_
    rw [emitMerge?_eq (by omega)]
    rfl
  | .unary op operand => by
    rw [Expr.compileAfter?, compileAfter?_eq c operand, Expr.compileAfter]
    exact some_bind fun c₁ _ => rfl
  | .call name arguments => by
    rw [Expr.compileAfter?, Expr.compileAfter]
    cases Function.named? name with
    | none => rfl
    | some f =>
      dsimp only
      rw [compileAllAfter?_eq c arguments]
      refine some_bind fun c₁ h₁ => ?_
      have hdepth := (compileAllAfter_steps h₁).2
      exact emitCall?_eq (by omega)

theorem compileAllAfter?_eq (c : Code) :
    ∀ es : List Expr, Expr.compileAllAfter? names c es = ExceptT.mk (some (Expr.compileAllAfter names c es))
  | [] => rfl
  | e :: es => by
    rw [Expr.compileAllAfter?, compileAfter?_eq c e, Expr.compileAllAfter]
    exact some_bind fun c₁ _ => compileAllAfter?_eq c₁ es

end

end Counter

/-! ### Programs -/

/-- **The height of the stack.** Nothing is taken from a counter at zero, and the counter ends at 1.  Runs start on the empty stack,
as those of `Program.executeOver` do.  No stack of a run is higher than the maximum, whatever cuts the run short.  A run that
comes to no function that fails, and to no variable without a value, leaves one value, and the maximum is its greatest height;
with a value for each name no variable is without one. -/
theorem maxDepth_isGreatest {names : List String} {e : Expr} {p : Program} (h : e.compile names = .ok p) :
    (∃ c, e.compileAfter names .empty = .ok c ∧ (e.compileAfter? names .empty).run = some (.ok c) ∧ c.depth = 1 ∧
        p = ⟨c.instrs.toList, c.maxDepth⟩) ∧
      ∀ (A : Arithmetic) (values : List Float),
        (∀ stack ∈ runStacks A values p.instrs [], stack.length ≤ p.maxDepth) ∧
        (¬ Meets A values (Instr.FunctionFails A) p.instrs → ¬ Meets A values (Instr.VariableFails values) p.instrs →
          (∃ v, leaves A values p.instrs [] = .ok [v]) ∧
            IsGreatest {n | ∃ stack ∈ runStacks A values p.instrs [], stack.length = n} p.maxDepth) ∧
        (names.length ≤ values.length → ¬ Meets A values (Instr.VariableFails values) p.instrs) := by
  simp only [Expr.compile, bind_eq_ok_iff, pure_eq_ok, Except.ok.injEq] at h
  obtain ⟨c, hc, rfl⟩ := h
  obtain ⟨hsteps, hdepth⟩ := compileAfter_steps hc
  refine ⟨⟨c, hc, by rw [compileAfter?_eq, hc]; rfl, hdepth, rfl⟩, fun A values => ?_⟩
  have hmeasured : c.IsMeasured A values := isMeasured_of_steps hsteps
  refine ⟨hmeasured.bounded, fun hfunction hvariable => ?_, ?_⟩
  · cases hrun : leaves A values c.instrs.toList [] with
    | error e => exact absurd (hmeasured.cut hrun) (not_or.mpr ⟨hfunction, hvariable⟩)
    | ok stack =>
      obtain ⟨v, rfl⟩ := List.length_eq_one_iff.mp ((hmeasured.height hrun).trans hdepth)
      refine ⟨⟨v, rfl⟩, hmeasured.reached hrun, ?_⟩
      rintro n ⟨stack, hstack, rfl⟩
      exact hmeasured.bounded stack hstack
  · rintro hlen ⟨before, i, after, stack, hsplit, -, hfails⟩
    obtain ⟨hk⟩ := hfails
    have hlt := var_lt_of_steps hsteps _ (show _ ∈ c.instrs.toList from hsplit ▸ List.mem_append_cons_self)
    omega

/-- `1 + x * max(3, -x)`: the stack is highest with `1`, `x`, `3` and the second `x` on it. -/
theorem maxDepth_isGreatest_max :
    let p : Program := ⟨[.const 1, .var 0, .const 3, .var 0, .neg, .call2 .max, .mul, .add], 4⟩
    Expr.compile ["x"] (.binary (.number 1) '+' (.binary (.symbol "x") '*'
        (.call "max" [.number 3, .unary '-' (.symbol "x")]))) = .ok p ∧
      ["x"].length ≤ ([5] : List Float).length ∧ ¬ Meets .float [5] (Instr.FunctionFails .float) p.instrs ∧
      IsGreatest {n | ∃ stack ∈ runStacks .float [5] p.instrs [], stack.length = n} 4 := by
  intro p
  have hcompile : Expr.compile ["x"] (.binary (.number 1) '+' (.binary (.symbol "x") '*'
      (.call "max" [.number 3, .unary '-' (.symbol "x")]))) = .ok p := rfl
  have hfunction : ¬ Meets .float [5] (Instr.FunctionFails .float) p.instrs := by
    rintro ⟨before, i, after, stack, hsplit, -, hfails⟩
    have hmem : i ∈ p.instrs := by
      rw [hsplit]
      exact List.mem_append_cons_self
    cases hfails with
    | unary hf => simp [p] at hmem
    | binary hf =>
      obtain rfl : _ = BinaryFunction.max := by simpa [p] using hmem
      cases hf
  obtain ⟨-, hruns⟩ := maxDepth_isGreatest hcompile
  obtain ⟨-, hgreatest, hvariable⟩ := hruns .float [5]
  exact ⟨hcompile, le_rfl, hfunction, (hgreatest hfunction (hvariable le_rfl)).2⟩

/-- A run that a function cuts short may stay below the maximum. -/
example : (Expr.binary (.call "sqrt" [.number (-1)]) '+' (.binary (.number 2) '*' (.number 3))).compile [] =
      .ok ⟨[.const (-1), .call1 .sqrt, .const 2, .const 3, .mul, .add], 3⟩ ∧
    (runStacks .float [] [.const (-1), .call1 .sqrt, .const 2, .const 3, .mul, .add] []).map List.length = [0, 1, 0] :=
  ⟨rfl, rfl⟩

end Numerics.Formula
