import Mathlib.Data.List.Basic
import Mathlib.Tactic.SplitIfs
import Numerics.Formula.Program
import Numerics.Proofs.Outcome

/-!
# What the compiler finds fault with

A tree can be compiled if and only if each of its nodes is sound: names are declared, operators are known, and calls have a
form of a known function for their number of arguments.  The faults of a node are its own (`Expr.fault?`), and the nodes are
judged from left to right, the children before their parent; only a call of an unknown function is judged before its arguments
(`Expr.nodes`).  The first fault is the error of the compiler (`compile_judges`).
-/

namespace Numerics.Formula

/-! ### Sound nodes -/

/-- The function has a form for this number of arguments. -/
def Function.Takes (f : Function) (count : ℕ) : Prop := (count = 1 ∧ f.unary.isSome) ∨ (count = 2 ∧ f.binary.isSome)

instance {f : Function} {count : ℕ} : Decidable (f.Takes count) := inferInstanceAs (Decidable (_ ∨ _))

/-- The name is that of a variable or a constant. -/
def IsKnown (vars : List String) (name : String) : Prop := name ∈ vars ∨ name = "pi" ∨ name = "e"

instance {vars : List String} {name : String} : Decidable (IsKnown vars name) := inferInstanceAs (Decidable (_ ∨ _))

namespace Expr

/-- Nothing is wrong with the node, whatever is wrong with the nodes below it. -/
def IsSound (vars : List String) : Expr → Prop
  | number _ => True
  | symbol name => IsKnown vars name
  | binary _ op _ => op ∈ ['+', '-', '*', '/']
  | unary _ _ => True
  | call name arguments => ∃ f ∈ Function.all, name ∈ f.name :: f.aliases ∧ f.Takes arguments.length

/-- What is wrong with the node, whatever is wrong with the nodes below it. -/
def fault? (vars : List String) : Expr → Option ParseError
  | number _ => none
  | symbol name =>
    if IsKnown vars name then none
    else if (Function.named? name).isSome then some (.bareFunction name)
    else some (.unknownSymbol name)
  | binary _ op _ =>
    if op ∈ ['+', '-', '*', '/'] then none else some (.unexpectedToken s!"'{op}'" .binaryOperator)
  | unary _ _ => none
  | call name arguments =>
    match Function.named? name with
    | none => some (.unknownFunction name)
    | some f => if f.Takes arguments.length then none else some (.arity name f.arity arguments.length)

mutual

/-- The nodes of a tree in the order in which they are judged. -/
def nodes : Expr → List Expr
  | number v => [number v]
  | symbol name => [symbol name]
  | binary left op right => left.nodes ++ right.nodes ++ [binary left op right]
  | unary op operand => operand.nodes ++ [unary op operand]
  | call name arguments =>
    if (Function.named? name).isSome then nodesOfAll arguments ++ [call name arguments]
    else call name arguments :: nodesOfAll arguments

/-- The nodes of trees in order. -/
def nodesOfAll : List Expr → List Expr
  | [] => []
  | e :: es => e.nodes ++ nodesOfAll es

end

end Expr

open Formula.Expr

variable {vars : List String}

/-- A node is sound if and only if it has no fault. -/
theorem fault?_eq_none_iff {node : Expr} : node.fault? vars = none ↔ node.IsSound vars := by
  cases node with
  | number v => simp [fault?, IsSound]
  | unary op operand => simp [fault?, IsSound]
  | symbol name =>
    rw [fault?, IsSound]
    split_ifs with h <;> simp [h]
  | binary left op right =>
    rw [fault?, IsSound]
    split_ifs with h <;> simp [h]
  | call name arguments =>
    rw [fault?, IsSound]
    simp only [← and_assoc, ← named?_eq_some_iff]
    cases Function.named? name with
    | none => simp
    | some f => by_cases h : f.Takes arguments.length <;> simp [h]

/-! ### The compiler's judgement -/

theorem lastIndex?_isSome_iff (vars : List String) (name : String) :
    (lastIndex? name vars).isSome = true ↔ name ∈ vars := by
  induction vars with
  | nil => simp [lastIndex?]
  | cons v vs ih =>
    rw [List.mem_cons, ← ih, lastIndex?]
    cases lastIndex? name vs with
    | some i => simp
    | none =>
      rw [eq_comm (a := name)]
      by_cases hv : v = name <;> simp [hv]

theorem constant?_isSome_iff (name : String) : (constant? name).isSome = true ↔ name = "pi" ∨ name = "e" := by
  unfold constant?
  split_ifs with hpi he <;> simp [*]

theorem judged_resolve (vars : List String) (name : String) :
    Judged (resolve vars name) ((symbol name).fault? vars) := by
  have hvars := lastIndex?_isSome_iff vars name
  have hconstant := constant?_isSome_iff name
  rw [resolve, fault?]
  cases hi : lastIndex? name vars with
  | some i =>
    have hknown : IsKnown vars name := .inl (hvars.mp (hi ▸ rfl))
    rw [if_pos hknown]
    exact .ok _
  | none =>
    rw [hi] at hvars
    cases hv : constant? name with
    | some v =>
      have hknown : IsKnown vars name := .inr (hconstant.mp (hv ▸ rfl))
      rw [if_pos hknown]
      exact .ok _
    | none =>
      rw [hv] at hconstant
      have hunknown : ¬ IsKnown vars name := not_or.mpr ⟨hvars.not.mp Bool.false_ne_true, hconstant.not.mp Bool.false_ne_true⟩
      rw [if_neg hunknown]
      dsimp only
      split_ifs
      · exact .error _
      · exact .error _

theorem judged_operator (vars : List String) (left : Expr) (op : Char) (right : Expr) :
    Judged (operator op) ((binary left op right).fault? vars) := by
  rw [fault?]
  split_ifs with h
  · simp only [List.mem_cons, List.not_mem_nil, or_false] at h
    rcases h with rfl | rfl | rfl | rfl <;> exact .ok _
  · unfold operator
    split
    case h_5 => exact .error _
    all_goals exact absurd (by decide) h

theorem judged_emitCall (vars : List String) (c : Code) {f : Function} {name : String} (arguments : List Expr)
    (hf : Function.named? name = some f) :
    Judged (c.emitCall f name arguments.length) ((call name arguments).fault? vars) := by
  rw [fault?, hf]
  dsimp only
  generalize arguments.length = count
  unfold Code.emitCall
  split
  · next g hg =>
    rw [if_pos (.inl ⟨rfl, Option.isSome_of_eq_some hg⟩)]
    exact .ok _
  · next g hg =>
    rw [if_pos (.inr ⟨rfl, Option.isSome_of_eq_some hg⟩)]
    exact .ok _
  · next hone htwo =>
    rw [if_neg]
    · exact .error _
    · rintro (⟨rfl, hunary⟩ | ⟨rfl, hbinary⟩)
      · obtain ⟨g, hg⟩ := Option.isSome_iff_exists.mp hunary
        exact hone g rfl hg
      · obtain ⟨g, hg⟩ := Option.isSome_iff_exists.mp hbinary
        exact htwo g rfl hg

mutual

/-- **The first fault of a tree.** It is the error of the compiler, whatever code there is already. -/
theorem judged_compileAfter (vars : List String) :
    ∀ (e : Expr) (c : Code), Judged (e.compileAfter vars c) (e.nodes.findSome? (fault? vars))
  | .number v, c => .ok _
  | .symbol name, c => by
    have h := (judged_resolve vars name).bind fun i => .ok (c.emitPush i)
    simpa [nodes, compileAfter] using h
  | .binary left op right, c => by
    have h := (judged_compileAfter vars left c).bind fun c₁ => (judged_compileAfter vars right c₁).bind fun c₂ =>
      (judged_operator vars left op right).bind fun i => .ok (c₂.emitMerge i)
    simpa [nodes, compileAfter, List.findSome?_append] using h
  | .unary op operand, c => by
    have h := (judged_compileAfter vars operand c).bind fun c₁ => .ok (c₁.emit .neg)
    simpa [nodes, compileAfter, fault?] using h
  | .call name arguments, c => by
    unfold compileAfter nodes
    cases hf : Function.named? name with
    | none =>
      have h : (call name arguments).fault? vars = some (.unknownFunction name) := by rw [fault?, hf]
      simpa [h] using .error _
    | some f =>
      have h := (judged_compileAllAfter vars arguments c).bind fun c₁ => judged_emitCall vars c₁ arguments hf
      simpa [List.findSome?_append] using h

/-- Trees are judged in order. -/
theorem judged_compileAllAfter (vars : List String) :
    ∀ (es : List Expr) (c : Code), Judged (compileAllAfter vars c es) ((nodesOfAll es).findSome? (fault? vars))
  | [], c => .ok c
  | e :: es, c => by
    have h := (judged_compileAfter vars e c).bind fun c₁ => judged_compileAllAfter vars es c₁
    simpa [nodesOfAll, compileAllAfter, List.findSome?_append] using h

end

/-- **The compiler's judgement.** It compiles the trees whose nodes are all sound, and of any other tree it reports the first
fault. -/
theorem compile_judges (vars : List String) (e : Expr) :
    ((∃ p, e.compile vars = .ok p) ↔ ∀ node ∈ e.nodes, node.IsSound vars) ∧
      ∀ fault, e.compile vars = .error fault ↔ e.nodes.findSome? (fault? vars) = some fault := by
  have h : Judged (e.compile vars) (e.nodes.findSome? (fault? vars)) := by
    have h := (judged_compileAfter vars e .empty).bind fun c => .ok (⟨c.instrs.toList, c.maxDepth⟩ : Program)
    rwa [Option.or_none] at h
  refine ⟨?_, fun fault => h.eq_error_iff⟩
  rw [h.exists_ok_iff, List.findSome?_eq_none_iff]
  simp only [fault?_eq_none_iff]

/-- Of five faults the unknown function comes first, although it is the parent of others. -/
example : (binary (call "gamma" [symbol "z", call "sin" []]) '?' (symbol "cos")).compile ["x"] =
    .error (.unknownFunction "gamma") := rfl

end Numerics.Formula
