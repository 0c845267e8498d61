/-!
# Outcomes

When a computation made of parts that may fail gives a value, and how it fails.
-/

namespace Numerics

section Outcomes

variable {ε α β : Type} {x : Except ε α}

@[simp] theorem pure_eq_ok (a : α) : (pure a : Except ε α) = .ok a := rfl

@[simp] theorem ok_bind (a : α) (f : α → Except ε β) : (Except.ok a >>= f) = f a := rfl

@[simp] theorem error_bind (e : ε) (f : α → Except ε β) : (Except.error e >>= f) = .error e := rfl

@[simp] theorem map_ok (f : α → β) (a : α) : (Except.ok a : Except ε α).map f = .ok (f a) := rfl

@[simp] theorem map_error (f : α → β) (e : ε) : (Except.error e : Except ε α).map f = .error e := rfl

theorem bind_eq_ok_iff {f : α → Except ε β} {b : β} : (x >>= f) = .ok b ↔ ∃ a, x = .ok a ∧ f a = .ok b := by
  cases x <;> simp

/-- Checks that are made one after the other. -/
theorem check_bind_eq_ok_iff {check next : Except ε Unit} :
    (check >>= fun _ => next) = .ok () ↔ check = .ok () ∧ next = .ok () := by
  cases check <;> simp

theorem map_eq_ok_iff {f : α → β} {b : β} : x.map f = .ok b ↔ ∃ a, x = .ok a ∧ f a = b := by
  cases x <;> simp

theorem map_eq_error_iff {f : α → β} {e : ε} : x.map f = .error e ↔ x = .error e := by
  cases x <;> simp

theorem bind_eq_error_iff {f : α → Except ε β} {e : ε} :
    (x >>= f) = .error e ↔ x = .error e ∨ ∃ a, x = .ok a ∧ f a = .error e := by
  cases x <;> simp

theorem toOption_eq_some_iff {a : α} : x.toOption = some a ↔ x = .ok a := by
  cases x <;> simp [Except.toOption]

/-- A computation whose value passes a test. -/
theorem exists_of_toOption_any {test : α → Bool} (h : x.toOption.any test = true) : ∃ a, x = .ok a ∧ test a = true := by
  cases x with
  | ok a => exact ⟨a, rfl, h⟩
  | error e => cases h

end Outcomes

/-! ### Errors -/

/-- The computation fails with this error, or gives a value if there is none. -/
inductive Judged {ε α : Type} : Except ε α → Option ε → Prop where
  | ok (a : α) : Judged (.ok a) none
  | error (e : ε) : Judged (.error e) (some e)

section Judged

variable {ε α β : Type} {x : Except ε α} {verdict next : Option ε}

/-- Of two computations, one after the other, the first one that fails tells the error. -/
theorem Judged.bind {f : α → Except ε β} (h : Judged x verdict) (hf : ∀ a, Judged (f a) next) :
    Judged (x >>= f) (verdict.or next) := by
  cases h with
  | ok a => exact hf a
  | error e => exact .error e

theorem Judged.exists_ok_iff (h : Judged x verdict) : (∃ a, x = .ok a) ↔ verdict = none := by
  cases h <;> simp

theorem Judged.eq_error_iff (h : Judged x verdict) {e : ε} : x = .error e ↔ verdict = some e := by
  cases h <;> simp

end Judged

/-! ### Two computations -/

/-- Both computations give values, which are related, or both fail. -/
inductive Together {ε α β : Type} (r : α → β → Prop) : Except ε α → Except ε β → Prop where
  | ok {a : α} {b : β} : r a b → Together r (.ok a) (.ok b)
  | error (e e' : ε) : Together r (.error e) (.error e')

section Together

variable {ε α β γ δ : Type} {r : α → β → Prop} {q : γ → δ → Prop} {x : Except ε α} {y : Except ε β}

theorem Together.bind {f : α → Except ε γ} {g : β → Except ε δ} (h : Together r x y)
    (hfg : ∀ a b, x = .ok a → r a b → Together q (f a) (g b)) : Together q (x >>= f) (y >>= g) := by
  cases h with
  | ok hr => exact hfg _ _ rfl hr
  | error e e' => exact .error e e'

theorem Together.map {f : α → γ} {g : β → δ} (h : Together r x y) (hfg : ∀ a b, r a b → q (f a) (g b)) :
    Together q (x.map f) (y.map g) := by
  cases h with
  | ok hr => exact .ok (hfg _ _ hr)
  | error e e' => exact .error e e'

end Together

end Numerics
