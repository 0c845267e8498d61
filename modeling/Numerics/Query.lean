/-!
# Computations that ask for values

A method sees its objective only through the values it asks for. `Query ι α β` is such a computation: it asks for
values in `α` at inputs in `ι`, one after the other, and ends with a result in `β`; at a checkpoint it lets itself be
stopped. What a method computes (`value`), which inputs it asks for (`requests`) and how many (`counted`) are
functions of the same tree, so they cannot disagree. A method whose requests are themselves computations is put on
top of them by `expand`.
-/

namespace Numerics

/-- A computation that asks for values, and looks at checkpoints whether it has to stop. -/
inductive Query (ι α β : Type) where
  | done (result : β)
  | ask (x : ι) (next : α → Query ι α β)
  | checkpoint (next : Query ι α β)

namespace Query

variable {ι α β γ : Type}

/-- One computation, and another one that depends on its result. -/
def bind : Query ι α β → (β → Query ι α γ) → Query ι α γ
  | done b, k => k b
  | ask x next, k => ask x fun v => (next v).bind k
  | checkpoint next, k => checkpoint (next.bind k)

instance : Monad (Query ι α) where
  pure := done
  bind := bind

/-- Asks for the value at an input. -/
@[inline] def request (x : ι) : Query ι α α := ask x done

/-- Lets itself be stopped. -/
@[inline] def check : Query ι α Unit := checkpoint (done ())

/-- The values at inputs in order, after those in `answers`, newest first. -/
def collectAfter (answers : List α) : List ι → Query ι α (List α)
  | [] => done answers.reverse
  | x :: xs => ask x fun v => collectAfter (v :: answers) xs

/-- The values at inputs in order. -/
def collect (xs : List ι) : Query ι α (List α) := collectAfter [] xs

/-- The result for an objective, if the computation is not stopped. -/
@[specialize] def value (f : ι → α) : Query ι α β → β
  | done b => b
  | ask x next => (next (f x)).value f
  | checkpoint next => next.value f

/-- The inputs asked for, in order. -/
def requests (f : ι → α) : Query ι α β → List ι
  | done _ => []
  | ask x next => x :: (next (f x)).requests f
  | checkpoint next => next.requests f

/-- The computation with the number of its requests, on top of `n`. -/
def countedFrom (n : Nat) : Query ι α β → Query ι α (β × Nat)
  | done b => done (b, n)
  | ask x next => ask x fun v => (next v).countedFrom (n + 1)
  | checkpoint next => checkpoint (next.countedFrom n)

/-- The computation with each request answered by another computation. -/
def expand {κ δ : Type} (answer : ι → Query κ δ α) : Query ι α β → Query κ δ β
  | done b => done b
  | ask x next => (answer x).bind fun v => (next v).expand answer
  | checkpoint next => checkpoint (next.expand answer)

/-- The computation with the number of its requests. -/
def counted (q : Query ι α β) : Query ι α (β × Nat) := q.countedFrom 0

/-! ## Lemmas -/

@[simp] theorem pure_def (b : β) : (pure b : Query ι α β) = done b := rfl

@[simp] theorem done_bind (b : β) (k : β → Query ι α γ) : (done b >>= k) = k b := rfl

@[simp] theorem ask_bind (x : ι) (next : α → Query ι α β) (k : β → Query ι α γ) :
    (ask x next >>= k) = ask x fun v => next v >>= k := rfl

@[simp] theorem checkpoint_bind (next : Query ι α β) (k : β → Query ι α γ) :
    (checkpoint next >>= k) = checkpoint (next >>= k) := rfl

@[simp] theorem value_bind (f : ι → α) (q : Query ι α β) (k : β → Query ι α γ) :
    (q >>= k).value f = (k (q.value f)).value f := by
  induction q with
  | done b => rfl
  | ask x next ih => exact ih (f x)
  | checkpoint next ih => exact ih

@[simp] theorem requests_bind (f : ι → α) (q : Query ι α β) (k : β → Query ι α γ) :
    (q >>= k).requests f = q.requests f ++ (k (q.value f)).requests f := by
  induction q with
  | done b => rfl
  | ask x next ih => simp [requests, value, ih]
  | checkpoint next ih => simpa [requests, value] using ih

/-- The result depends on the values that are asked for. -/
theorem value_congr {f g : ι → α} (q : Query ι α β) (h : ∀ x ∈ q.requests f, f x = g x) : q.value f = q.value g := by
  induction q with
  | done b => rfl
  | ask x next ih =>
    have hx := h x List.mem_cons_self
    rw [value, value, ← hx]
    exact ih _ fun y hy => h y (List.mem_cons_of_mem x hy)
  | checkpoint next ih => exact ih h

theorem value_countedFrom (f : ι → α) (q : Query ι α β) (n : Nat) :
    (q.countedFrom n).value f = (q.value f, n + (q.requests f).length) := by
  induction q generalizing n with
  | done b => rfl
  | ask x next ih => simp [countedFrom, value, requests, ih]; omega
  | checkpoint next ih => simpa [countedFrom, value, requests] using ih n

/-- The count is the number of requests. -/
@[simp] theorem value_counted (f : ι → α) (q : Query ι α β) :
    q.counted.value f = (q.value f, (q.requests f).length) := by
  simp [counted, value_countedFrom]

theorem requests_countedFrom (f : ι → α) (q : Query ι α β) (n : Nat) :
    (q.countedFrom n).requests f = q.requests f := by
  induction q generalizing n with
  | done b => rfl
  | ask x next ih => simp [countedFrom, requests, ih]
  | checkpoint next ih => simpa [countedFrom, requests] using ih n

/-- Counting asks for nothing more. -/
@[simp] theorem requests_counted (f : ι → α) (q : Query ι α β) :
    q.counted.requests f = q.requests f := requests_countedFrom f q 0

@[simp] theorem value_expand {κ δ : Type} (f : κ → δ) (answer : ι → Query κ δ α) (q : Query ι α β) :
    (q.expand answer).value f = q.value fun x => (answer x).value f := by
  induction q with
  | done b => rfl
  | ask x next ih => exact (value_bind f (answer x) _).trans (ih _)
  | checkpoint next ih => exact ih

@[simp] theorem requests_expand {κ δ : Type} (f : κ → δ) (answer : ι → Query κ δ α) (q : Query ι α β) :
    (q.expand answer).requests f =
      (q.requests fun x => (answer x).value f).flatMap fun x => (answer x).requests f := by
  induction q with
  | done b => rfl
  | ask x next ih => exact (requests_bind f (answer x) _).trans (congrArg _ (ih _))
  | checkpoint next ih => exact ih

theorem value_collectAfter (f : ι → α) (answers : List α) (xs : List ι) :
    (collectAfter answers xs).value f = answers.reverse ++ xs.map f := by
  induction xs generalizing answers with
  | nil => simp [collectAfter, value]
  | cons x xs ih => simp [collectAfter, value, ih]

@[simp] theorem value_collect (f : ι → α) (xs : List ι) : (collect xs).value f = xs.map f := by
  simp [collect, value_collectAfter]

theorem requests_collectAfter (f : ι → α) (answers : List α) (xs : List ι) :
    (collectAfter answers xs).requests f = xs := by
  induction xs generalizing answers with
  | nil => rfl
  | cons x xs ih => simp [collectAfter, requests, ih]

@[simp] theorem requests_collect (f : ι → α) (xs : List ι) : (collect xs).requests f = xs :=
  requests_collectAfter f [] xs

end Query

end Numerics
