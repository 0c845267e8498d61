import Mathlib.Algebra.Order.Ring.Int
import Numerics.Proofs.Formula.PassLimit
import Numerics.Proofs.Formula.PowerCall

/-!
# Spans of operands

The scans for the operands of a power sign, by positions in the text and with a counter of open groups.  No scan looks at a
position outside of the text, and none takes one from a counter that is zero: they come to the operands that are found
outward from the sign (`leftStart_eq`, `rightEnd_eq`).  An operand closes the groups that it opens and no others, so that a pass
keeps the depth of all that stands outside of the operands (`operand_spans`).
-/

namespace Numerics.Formula

open Text

/-! ### Scans by positions -/

/-- What a scan by positions can do wrong. -/
inductive Fault where
  /-- It looks at a position outside of the text. -/
  | outside (i : ℕ)
  /-- It takes one from the counter of open groups where none is open. -/
  | noneOpen (i : ℕ)
  deriving DecidableEq

/-- The character at a position. -/
def charAt (text : List Char) (i : ℕ) : Except Fault Char :=
  match text[i]? with
  | some c => .ok c
  | none => .error (.outside i)

/-- Where the run of characters with a property starts that ends right before a position. -/
def runStart (text : List Char) (p : Char → Bool) : ℕ → Except Fault ℕ
  | 0 => .ok 0
  | i + 1 => do
    if p (← charAt text i) then runStart text p i else return i + 1

/-- Where the run of characters with a property ends that starts at a position. -/
def runEnd (text : List Char) (p : Char → Bool) (i : ℕ) : Except Fault ℕ :=
  if i < text.length then do
    if p (← charAt text i) then runEnd text p (i + 1) else return i
  else return i
termination_by text.length - i

/-- Where the group starts that is closed before a position, going down from it with `depth` groups open. -/
def groupStart (text : List Char) (depth : ℕ) : ℕ → Except Fault (Option ℕ)
  | 0 => return none
  | i + 1 => do
    let c ← charAt text i
    if c = ')' then groupStart text (depth + 1) i
    else if c = '(' then
      match depth with
      | 0 => .error (.noneOpen i)
      | depth + 1 => if depth = 0 then return some i else groupStart text depth i
    else groupStart text depth i

/-- Where the group ends that is opened from a position on, going up from it with `depth` groups open. -/
def groupEnd (text : List Char) (depth i : ℕ) : Except Fault (Option ℕ) :=
  if i < text.length then do
    let c ← charAt text i
    if c = '(' then groupEnd text (depth + 1) (i + 1)
    else if c = ')' then
      match depth with
      | 0 => .error (.noneOpen i)
      | depth + 1 => if depth = 0 then return some (i + 1) else groupEnd text depth (i + 1)
    else groupEnd text depth (i + 1)
  else return none
termination_by text.length - i

/-- Where the name starts that is the function of the group which starts at a position, or else that position. -/
def calleeStart (text : List Char) (opening : ℕ) : Except Fault ℕ := do
  let name ← runStart text isNameChar opening
  if name < opening then
    let c ← charAt text name
    if isAlphabetic c then return name else return opening
  else return opening

/-- Where the left operand of the power sign at a position starts. -/
def leftStart (text : List Char) : ℕ → Except Fault (Except ParseError ℕ)
  | 0 => return .error (.missingPowerOperand .left)
  | last + 1 => do
    let c ← charAt text last
    if isNumberChar c then return .ok (← runStart text isNumberChar (last + 1))
    else if isNameStart c then return .ok (← runStart text isNameChar (last + 1))
    else if c = ')' then
      let some opening ← groupStart text 0 (last + 1) | return .error .unbalancedParens
      return .ok (← calleeStart text opening)
    else return .error (.missingPowerOperand .left)

/-- Where the group ends that starts at a position. -/
def leadingEnd (text : List Char) (i : ℕ) : Except Fault (Except ParseError ℕ) := do
  let some i ← groupEnd text 0 i | return .error .unbalancedParens
  return .ok i

/-- Where the right operand without its sign ends that starts at a position. -/
def unsignedEnd (text : List Char) (i : ℕ) : Except Fault (Except ParseError ℕ) :=
  match text[i]? with
  | none => return .error (.missingPowerOperand .right)
  | some c => do
    if isNumberChar c then return .ok (← runEnd text isNumberChar i)
    else if isNameStart c then
      let name ← runEnd text isNameChar i
      if text[name]? = some '(' then leadingEnd text name else return .ok name
    else if c = '(' then leadingEnd text i
    else return .error (.missingPowerOperand .right)

/-- Where the right operand of the power sign at a position ends. -/
def rightEnd (text : List Char) (caret : ℕ) : Except Fault (Except ParseError ℕ) :=
  if text[caret + 1]?.any fun c => c = '-' || c = '+' then unsignedEnd text (caret + 2)
  else unsignedEnd text (caret + 1)

/-! ### The left operand -/

section Left

variable {before cs zs : List Char} {c : Char} {i depth : ℕ}

theorem charAt_append (hi : cs.length = i) : charAt (cs ++ c :: zs) i = .ok c := by
  rw [charAt, ← hi, List.getElem?_append_right le_rfl, Nat.sub_self, List.getElem?_cons_zero]

theorem runStart_eq (p : Char → Bool) (before zs : List Char) :
    runStart (before.reverse ++ zs) p before.length = .ok (splitRun p before).2.length := by
  induction before generalizing zs with
  | nil => rfl
  | cons c cs ih =>
    rw [List.reverse_cons, List.append_assoc, List.singleton_append, List.length_cons, runStart,
      charAt_append List.length_reverse, ok_bind, splitRun, List.dropWhile_cons]
    split
    · exact ih (c :: zs)
    · rfl

/-- The scan for a group goes down with a group open, and so does not come to close one where none is. -/
theorem groupStart_eq : groupStart (before.reverse ++ zs) (depth + 1) before.length =
    .ok ((splitGroup? ')' '(' (depth + 1) before).map (·.2.length)) := by
  induction before generalizing depth zs with
  | nil => rfl
  | cons c cs ih =>
    rw [List.reverse_cons, List.append_assoc, List.singleton_append, List.length_cons, groupStart,
      charAt_append List.length_reverse, ok_bind, splitGroup?]
    by_cases hclosing : c = ')'
    · rw [if_pos hclosing, if_pos hclosing, ih, Option.map_map]
      rfl
    by_cases hopening : c = '('
    · rw [if_neg hclosing, if_neg hclosing, if_pos hopening, if_pos hopening]
      -- the group is found if it is the only one open, and else one less is open
      cases depth with
      | zero => rfl
      | succ depth =>
        rw [if_neg (by omega : ¬ depth + 1 + 1 ≤ 1), Option.map_map]
        exact ih
    · rw [if_neg hclosing, if_neg hclosing, if_neg hopening, if_neg hopening, ih, Option.map_map]
      rfl

/-- Without a group open it does. -/
example : groupStart ['('] 0 1 = .error (.noneOpen 0) := by decide

theorem calleeStart_eq : calleeStart (before.reverse ++ zs) before.length = .ok (splitCallee before).2.length := by
  unfold calleeStart splitCallee
  obtain ⟨run, rest, hrun⟩ : ∃ run rest, splitRun isNameChar before = (run, rest) := ⟨_, _, rfl⟩
  have hbefore : before = run ++ rest := (splitRun_eq_iff.mp hrun).1
  rw [runStart_eq, ok_bind, hrun]
  rcases List.eq_nil_or_concat' run with rfl | ⟨ys, d, rfl⟩
  · obtain rfl : before = rest := hbefore
    exact (if_neg (lt_irrefl before.length)).trans rfl
  · have htext : before.reverse ++ zs = rest.reverse ++ d :: (ys.reverse ++ zs) := by simp [hbefore]
    have hlt : rest.length < before.length := by
      rw [hbefore]
      simp
      omega
    rw [if_pos hlt, htext, charAt_append List.length_reverse, ok_bind]
    simp only [List.getLast?_concat, Option.any_some]
    split <;> rfl

/-- The scan to the left comes to where the left operand starts. -/
theorem leftStart_reverse (before zs : List Char) :
    leftStart (before.reverse ++ zs) before.length = .ok ((leftOperand before).map (·.2.length)) := by
  cases before with
  | nil => rfl
  | cons c cs =>
    have hc : charAt ((c :: cs).reverse ++ zs) cs.length = .ok c := by
      rw [List.reverse_cons, List.append_assoc, List.singleton_append, charAt_append List.length_reverse]
    have hgroup : c = ')' → groupStart ((c :: cs).reverse ++ zs) 0 (cs.length + 1) =
        .ok ((splitGroup? ')' '(' 0 (c :: cs)).map (·.2.length)) := by
      rintro rfl
      rw [groupStart, hc, ok_bind, if_pos rfl, List.reverse_cons, List.append_assoc, splitGroup?, if_pos rfl, groupStart_eq,
        Option.map_map]
      rfl
    have hrun := fun p => runStart_eq p (c :: cs) zs
    rw [List.length_cons, leftStart, hc, ok_bind, leftOperand]
    simp only [List.length_cons] at hrun
    split
    · rw [hrun]
      rfl
    split
    · rw [hrun]
      rfl
    split
    · next hclosing =>
      rw [hgroup hclosing, ok_bind]
      cases hsplit : splitGroup? ')' '(' 0 (c :: cs) with
      | none => rfl
      | some parts =>
        obtain ⟨group, rest⟩ := parts
        subst hclosing
        obtain ⟨inner, -, rfl, rfl⟩ := (splitGroup?_eq_some_iff (by decide)).mp hsplit
        have htext : (')' :: (inner ++ '(' :: rest)).reverse ++ zs =
            rest.reverse ++ ('(' :: (inner.reverse ++ ')' :: zs)) := by simp
        rw [htext, Option.map_some]
        change (do return Except.ok (← calleeStart _ rest.length)) = _
        rw [calleeStart_eq]
        rfl
    · rfl

end Left

/-! ### The right operand -/

section Right

variable {before cs : List Char} {c : Char} {depth : ℕ}

theorem runEnd_eq (p : Char → Bool) (before cs : List Char) :
    runEnd (before ++ cs) p before.length = .ok (before.length + (splitRun p cs).1.length) := by
  induction cs generalizing before with
  | nil =>
    rw [runEnd, if_neg (by simp)]
    rfl
  | cons c cs ih =>
    have hnext := ih (before ++ [c])
    rw [List.append_assoc, List.singleton_append, List.length_append, List.length_singleton] at hnext
    rw [runEnd, if_pos (by simp), charAt_append rfl, ok_bind, splitRun, List.takeWhile_cons]
    split
    · rw [hnext]
      exact congrArg Except.ok (Nat.add_right_comm _ 1 _)
    · rfl

/-- The character where the scan for a group is goes to the group. -/
theorem groupEnd_next
    (h : ∀ before, groupEnd (before ++ cs) depth before.length =
      .ok ((splitGroup? '(' ')' depth cs).map fun x => before.length + x.1.length)) :
    groupEnd (before ++ c :: cs) depth (before.length + 1) =
      .ok (((splitGroup? '(' ')' depth cs).map fun x => (c :: x.1, x.2)).map fun x => before.length + x.1.length) := by
  have hnext := h (before ++ [c])
  rw [List.append_assoc, List.singleton_append, List.length_append, List.length_singleton] at hnext
  rw [hnext, Option.map_map]
  refine congrArg (fun f => Except.ok (Option.map f _)) (funext fun x => ?_)
  rw [Function.comp_apply, List.length_cons, Nat.add_right_comm, Nat.add_assoc]

/-- The scan for a group goes up with a group open, and so does not come to close one where none is. -/
theorem groupEnd_eq (before : List Char) : groupEnd (before ++ cs) (depth + 1) before.length =
    .ok ((splitGroup? '(' ')' (depth + 1) cs).map fun x => before.length + x.1.length) := by
  induction cs generalizing before depth with
  | nil =>
    rw [groupEnd, if_neg (by simp)]
    rfl
  | cons c cs ih =>
    rw [groupEnd, if_pos (by simp), charAt_append rfl, ok_bind, splitGroup?]
    by_cases hopening : c = '('
    · rw [if_pos hopening, if_pos hopening]
      exact groupEnd_next ih
    by_cases hclosing : c = ')'
    · rw [if_neg hopening, if_neg hopening, if_pos hclosing, if_pos hclosing]
      cases depth with
      | zero => rfl
      | succ depth =>
        rw [if_neg (by omega : ¬ depth + 1 + 1 ≤ 1)]
        exact groupEnd_next ih
    · rw [if_neg hopening, if_neg hopening, if_neg hclosing, if_neg hclosing]
      exact groupEnd_next ih

theorem leadingEnd_eq : leadingEnd (before ++ '(' :: cs) before.length =
    .ok ((leadingGroup ('(' :: cs)).map fun x => before.length + x.1.length) := by
  have hgroup : groupEnd (before ++ '(' :: cs) 0 before.length =
      .ok ((splitGroup? '(' ')' 0 ('(' :: cs)).map fun x => before.length + x.1.length) := by
    rw [groupEnd, if_pos (by simp), charAt_append rfl, ok_bind, if_pos rfl, splitGroup?, if_pos rfl]
    exact groupEnd_next groupEnd_eq
  rw [leadingEnd, hgroup, ok_bind, leadingGroup]
  cases splitGroup? '(' ')' 0 ('(' :: cs) <;> rfl

theorem unsignedEnd_eq (before cs : List Char) : unsignedEnd (before ++ cs) before.length =
    .ok ((unsignedOperand cs).map fun x => before.length + x.1.length) := by
  cases cs with
  | nil =>
    rw [unsignedEnd, List.append_nil, List.getElem?_eq_none le_rfl]
    rfl
  | cons c cs =>
    have hrun := fun p => runEnd_eq p before (c :: cs)
    rw [unsignedEnd, List.getElem?_append_right le_rfl, Nat.sub_self, List.getElem?_cons_zero, unsignedOperand]
    dsimp only
    split
    · rw [hrun]
      rfl
    split
    · obtain ⟨name, rest, hname⟩ : ∃ name rest, splitRun isNameChar (c :: cs) = (name, rest) := ⟨_, _, rfl⟩
      have hcs : c :: cs = name ++ rest := (splitRun_eq_iff.mp hname).1
      have hnext : (before ++ c :: cs)[before.length + name.length]? = rest.head? := by
        rw [hcs, ← List.append_assoc, ← List.length_append, List.getElem?_append_right le_rfl, Nat.sub_self,
          List.head?_eq_getElem?]
      rw [hrun, ok_bind, hname]
      dsimp only
      rw [hnext]
      split
      · next hopening =>
        obtain ⟨cs', rfl⟩ := List.head?_eq_some_iff.mp hopening
        rw [hcs, ← List.append_assoc, ← List.length_append, leadingEnd_eq]
        cases leadingGroup ('(' :: cs') with
        | error e => rfl
        | ok parts =>
          simp only [map_ok, List.length_append, Nat.add_assoc]
      · rfl
    split
    · next hopening =>
      rw [hopening]
      exact leadingEnd_eq
    · rfl

/-- The scan to the right comes to where the right operand ends. -/
theorem rightEnd_append (before cs : List Char) : rightEnd (before ++ '^' :: cs) before.length =
    .ok ((rightOperand cs).map fun x => before.length + 1 + x.1.length) := by
  have hnext : (before ++ '^' :: cs)[before.length + 1]? = cs.head? := by
    rw [List.getElem?_append_right (Nat.le_succ _), Nat.succ_sub le_rfl, Nat.sub_self,
      List.getElem?_cons_succ, List.head?_eq_getElem?]
  have hunsigned : ∀ cs, unsignedEnd (before ++ '^' :: cs) (before.length + 1) =
      .ok ((unsignedOperand cs).map fun x => before.length + 1 + x.1.length) := by
    intro cs
    have h := unsignedEnd_eq (before ++ ['^']) cs
    rwa [List.append_assoc, List.singleton_append, List.length_append, List.length_singleton] at h
  rw [rightEnd, hnext]
  cases cs with
  | nil => exact hunsigned []
  | cons c cs =>
    rw [List.head?_cons, Option.any_some, rightOperand]
    split
    · have hsigned := unsignedEnd_eq (before ++ ['^', c]) cs
      rw [List.append_assoc, List.length_append] at hsigned
      refine hsigned.trans ?_
      cases unsignedOperand cs with
      | error e => rfl
      | ok parts =>
        simp only [map_ok, List.length_cons, List.length_nil]
        exact congrArg (fun n => Except.ok (Except.ok n)) (by omega)
    · exact hunsigned (c :: cs)

end Right

/-! ### Depths -/

section Depths

variable {xs ys ys' zs inner : List Char} {i : ℕ}

/-- How many of its groups a text leaves open, less the groups that it closes without opening them. -/
def depth (cs : List Char) : ℤ := cs.count '(' - cs.count ')'

/-- No initial part of the text closes more groups than it opens, and all groups are closed in the end. -/
structure IsClosed (cs : List Char) : Prop where
  nonneg : ∀ i, 0 ≤ depth (cs.take i)
  eq_zero : depth cs = 0

@[simp] theorem depth_append : depth (xs ++ ys) = depth xs + depth ys := by
  simp only [depth, List.count_append]
  push_cast
  ring

theorem IsClosed.append (hx : IsClosed xs) (hy : IsClosed ys) : IsClosed (xs ++ ys) where
  nonneg i := by
    rw [List.take_append, depth_append]
    exact add_nonneg (hx.nonneg i) (hy.nonneg _)
  eq_zero := by rw [depth_append, hx.eq_zero, hy.eq_zero, add_zero]

theorem isClosed_nil : IsClosed [] where
  nonneg i := by
    rw [List.take_nil]
    exact le_rfl
  eq_zero := rfl

theorem isClosed_singleton {c : Char} (hopening : c ≠ '(') (hclosing : c ≠ ')') : IsClosed [c] := by
  have hzero : depth [c] = 0 := by simp [depth, hopening, hclosing]
  refine ⟨fun i => ?_, hzero⟩
  cases i with
  | zero => exact le_rfl
  | succ i => exact (congrArg depth (List.take_succ_cons.trans (congrArg _ List.take_nil))).trans hzero |>.ge

theorem IsClosed.enclosed (h : IsClosed inner) : IsClosed (enclosed inner) where
  nonneg i := by
    cases i with
    | zero => exact le_rfl
    | succ i =>
      have hlast : -1 ≤ depth ([')'].take (i - inner.length)) := by
        cases i - inner.length with
        | zero => decide
        | succ j => exact (congrArg depth (List.take_of_length_le (Nat.le_add_left 1 j))).ge
      rw [Formula.enclosed, List.cons_append, List.take_succ_cons, List.take_append, ← List.singleton_append, depth_append,
        depth_append]
      have hfirst : depth ['('] = 1 := by decide
      have hinner := h.nonneg i
      omega
  eq_zero := by
    have hends : depth ['('] + depth [')'] = 0 := by decide
    rw [Formula.enclosed, ← List.singleton_append, depth_append, depth_append, h.eq_zero, add_zero, hends]

theorem Balanced.isClosed (h : Balanced '(' ')' xs) : IsClosed xs := by
  induction h with
  | nil => exact isClosed_nil
  | plain hopening hclosing _ ih => exact (isClosed_singleton hopening hclosing).append ih
  | group _ _ ihx ihy =>
    have := ihx.enclosed.append ihy
    rwa [Formula.enclosed, List.append_assoc] at this

end Depths

/-! ### Spans -/

section Spans

variable {xs ys ys' zs left right text next : List Char} {caret l r : ℕ}

/-- The characters from one position up to another one. -/
def slice (text : List Char) (i j : ℕ) : List Char := (text.take j).drop i

/-- A part of the text that is not empty and closes its groups. -/
structure IsSpan (text : List Char) (i j : ℕ) : Prop where
  lt : i < j
  le : j ≤ text.length
  closed : IsClosed (slice text i j)

/-- What stands before the position `l`, and what stands from the position `r` on, has its depth in the other text too, where it
comes `shift` places later. -/
structure KeepsDepth (text next : List Char) (l r shift : ℕ) : Prop where
  before : ∀ i < l, next[i]? = text[i]? ∧ depth (next.take i) = depth (text.take i)
  after : ∀ i, r ≤ i → next[i + shift]? = text[i]? ∧ depth (next.take (i + shift)) = depth (text.take i)

theorem slice_append : slice (xs ++ ys ++ zs) xs.length (xs.length + ys.length) = ys := by
  rw [slice, ← List.length_append, List.take_left, List.drop_left]

theorem isSpan_append (xs zs : List Char) (hne : ys ≠ []) (hys : Balanced '(' ')' ys) :
    IsSpan (xs ++ ys ++ zs) xs.length (xs.length + ys.length) where
  lt := Nat.lt_add_of_pos_right (List.length_pos_of_ne_nil hne)
  le := by
    rw [List.length_append, List.length_append]
    exact Nat.le_add_right _ _
  closed := slice_append.symm ▸ hys.isClosed

/-- A part of a text may be replaced by another one of the same depth. -/
theorem keepsDepth_append (xs zs : List Char) (hdepth : depth ys' = depth ys) (hle : ys.length ≤ ys'.length) :
    KeepsDepth (xs ++ ys ++ zs) (xs ++ ys' ++ zs) xs.length (xs.length + ys.length) (ys'.length - ys.length) where
  before i hi := by
    simp only [List.append_assoc]
    rw [List.getElem?_append_left hi, List.getElem?_append_left hi, List.take_append_of_le_length hi.le,
      List.take_append_of_le_length hi.le]
    exact ⟨rfl, rfl⟩
  after i hi := by
    obtain ⟨k, rfl⟩ := Nat.exists_eq_add_of_le hi
    have hshift : xs.length + ys.length + k + (ys'.length - ys.length) = (xs ++ ys').length + k := by
      rw [List.length_append]
      omega
    rw [hshift, ← List.length_append, List.getElem?_append_right (Nat.le_add_right _ _),
      List.getElem?_append_right (Nat.le_add_right _ _), Nat.add_sub_cancel_left, Nat.add_sub_cancel_left,
      List.take_length_add_append, List.take_length_add_append]
    simp only [depth_append, hdepth, and_self]

/-- The call for a power. -/
def callOf (left right : List Char) : List Char := ['p', 'o', 'w', '('] ++ left ++ [','] ++ right ++ [')']

theorem depth_callOf (left right : List Char) : depth (callOf left right) = depth (left ++ ['^'] ++ right) := by
  have hopening : depth ['p', 'o', 'w', '('] = 1 := by decide
  have hclosing : depth [')'] = -1 := by decide
  have hcomma : depth [','] = depth ['^'] := by decide
  simp only [callOf, depth_append, hopening, hclosing, hcomma]
  ring

theorem length_callOf : (callOf left right).length = (left ++ ['^'] ++ right).length + 5 := by
  simp only [callOf, List.length_append, List.length_cons, List.length_nil]
  omega

/-- A power and the call for it. -/
theorem keepsDepth_callOf :
    KeepsDepth (xs ++ (left ++ ['^'] ++ right) ++ zs) (xs ++ callOf left right ++ zs) xs.length
      (xs.length + (left ++ ['^'] ++ right).length) 5 := by
  have h := keepsDepth_append xs zs (depth_callOf left right) (by rw [length_callOf]; omega)
  rwa [length_callOf, Nat.add_sub_cancel_left] at h

/-- The call in place of a power, by positions. -/
theorem splice_callOf (htext : text = xs ++ (left ++ ['^'] ++ right) ++ zs) (hcaret : caret = xs.length + left.length) :
    text.take xs.length ++ callOf (slice text xs.length caret) (slice text (caret + 1) (caret + 1 + right.length)) ++
      text.drop (caret + 1 + right.length) = xs ++ callOf left right ++ zs := by
  have hleft : slice text xs.length caret = left := by
    rw [htext, hcaret, List.append_assoc left, ← List.append_assoc xs, List.append_assoc (xs ++ left)]
    exact slice_append
  have hpower : caret + 1 = (xs ++ left ++ ['^']).length := by simp [hcaret, Nat.add_assoc]
  have hright : slice text (caret + 1) (caret + 1 + right.length) = right := by
    rw [htext, hpower, ← List.append_assoc, ← List.append_assoc, slice_append]
  have hend : caret + 1 + right.length = (xs ++ (left ++ ['^'] ++ right)).length := by
    simp [hcaret]
    omega
  have hstart : text.take xs.length = xs := by rw [htext, List.append_assoc, List.take_left]
  rw [hleft, hright, hstart, hend, htext, List.drop_left]

theorem leftStart_eq (hcaret : caret ≤ text.length) :
    leftStart text caret = .ok ((leftOperand (text.take caret).reverse).map (·.2.length)) := by
  have h := leftStart_reverse (text.take caret).reverse (text.drop caret)
  rwa [List.reverse_reverse, List.take_append_drop, List.length_reverse, List.length_take_of_le hcaret] at h

theorem caret_lt_length (hcaret : text[caret]? = some '^') : caret < text.length := (List.getElem?_eq_some_iff.mp hcaret).1

theorem take_append_caret (hcaret : text[caret]? = some '^') : text.take caret ++ '^' :: text.drop (caret + 1) = text := by
  obtain ⟨hlt, hsign⟩ := List.getElem?_eq_some_iff.mp hcaret
  rw [← hsign, ← List.drop_eq_getElem_cons hlt, List.take_append_drop]

theorem rightEnd_eq (hcaret : text[caret]? = some '^') :
    rightEnd text caret = .ok ((rightOperand (text.drop (caret + 1))).map fun x => caret + 1 + x.1.length) := by
  have h := rightEnd_append (text.take caret) (text.drop (caret + 1))
  rwa [take_append_caret hcaret, List.length_take_of_le (caret_lt_length hcaret).le] at h

/-- The left operand is what stands from the found position up to the power sign. -/
theorem isSpan_of_leftStart (h : leftStart text caret = .ok (.ok l)) (hcaret : caret ≤ text.length) : IsSpan text l caret := by
  rw [leftStart_eq hcaret] at h
  obtain ⟨⟨left, start⟩, hleft, rfl⟩ := map_eq_ok_iff.mp (Except.ok.inj h)
  obtain ⟨hbefore, hshape⟩ := leftOperand_eq_ok_iff.mp hleft
  have htake : text.take caret = start.reverse ++ left.reverse := by rw [← List.reverse_append, ← hbefore, List.reverse_reverse]
  have hspan := isSpan_append start.reverse (text.drop caret) hshape.ne_nil hshape.balanced
  rwa [← htake, List.take_append_drop, ← List.length_append, ← htake, List.length_take_of_le hcaret, List.length_reverse] at hspan

/-- The right operand is what stands from the power sign up to the found position. -/
theorem isSpan_of_rightEnd (h : rightEnd text caret = .ok (.ok r)) (hcaret : text[caret]? = some '^') :
    IsSpan text (caret + 1) r := by
  rw [rightEnd_eq hcaret] at h
  obtain ⟨⟨right, rest⟩, hright, rfl⟩ := map_eq_ok_iff.mp (Except.ok.inj h)
  obtain ⟨hafter, hshape⟩ := rightOperand_eq_ok_iff.mp hright
  have hlength : (text.take (caret + 1)).length = caret + 1 := List.length_take_of_le (caret_lt_length hcaret)
  have hspan := isSpan_append (text.take (caret + 1)) rest hshape.ne_nil hshape.balanced
  rwa [List.append_assoc, ← hafter, List.take_append_drop, hlength] at hspan

/-- A pass puts the call in place of the two spans and the sign between them. -/
theorem replacePower_spans (hcaret : text[caret]? = some '^')
    (h : replacePower (text.take caret).reverse (text.drop (caret + 1)) = .ok next) :
    ∃ l r, leftStart text caret = .ok (.ok l) ∧ rightEnd text caret = .ok (.ok r) ∧
      next = text.take l ++ callOf (slice text l caret) (slice text (caret + 1) r) ++ text.drop r ∧
      KeepsDepth text next l r 5 := by
  obtain ⟨start, left, right, rest, hbefore, hleft, hafter, hright, rfl⟩ := replacePower_eq_ok_iff.mp h
  have hl : leftStart text caret = .ok (.ok start.length) := by
    rw [leftStart_eq (caret_lt_length hcaret).le, hbefore, hleft.found, map_ok]
  have hr : rightEnd text caret = .ok (.ok (caret + 1 + right.length)) := by
    rw [rightEnd_eq hcaret, hafter, rightOperand_eq_ok_iff.mpr ⟨rfl, hright⟩, map_ok]
  have htake : text.take caret = start.reverse ++ left := by
    rw [← List.reverse_reverse (text.take caret), hbefore, List.reverse_append, List.reverse_reverse]
  -- the text by its parts, and the positions by their lengths
  obtain ⟨xs, rfl⟩ : ∃ xs : List Char, start = xs.reverse := ⟨start.reverse, start.reverse_reverse.symm⟩
  rw [List.reverse_reverse] at htake ⊢
  rw [List.length_reverse] at hl
  have htext : text = xs ++ (left ++ ['^'] ++ right) ++ rest := by
    rw [← take_append_caret hcaret, htake, hafter]
    simp
  have hcaretEq : caret = xs.length + left.length := by
    rw [← List.length_append, ← htake, List.length_take_of_le (caret_lt_length hcaret).le]
  have hcall : xs ++ ('p' :: 'o' :: 'w' :: '(' :: (left ++ ',' :: (right ++ ')' :: rest))) = xs ++ callOf left right ++ rest := by
    simp [callOf]
  have hend : caret + 1 + right.length = xs.length + (left ++ ['^'] ++ right).length := by
    simp [hcaretEq]
    omega
  refine ⟨_, _, hl, hr, ?_, ?_⟩
  · rw [splice_callOf htext hcaretEq, hcall]
  · rw [hcall, hend, htext]
    exact keepsDepth_callOf

/-- **Spans of operands.** At each power sign of any text the scans by positions find the operands, or tell the error, and do
nothing wrong.  The operands are parts of the text that are not empty and closed.  So a pass keeps the depth of all that stands
outside of them. -/
theorem operand_spans (hcaret : text[caret]? = some '^') :
    leftStart text caret = .ok ((leftOperand (text.take caret).reverse).map (·.2.length)) ∧
      rightEnd text caret = .ok ((rightOperand (text.drop (caret + 1))).map fun x => caret + 1 + x.1.length) ∧
      (∀ l, leftStart text caret = .ok (.ok l) → IsSpan text l caret) ∧
      (∀ r, rightEnd text caret = .ok (.ok r) → IsSpan text (caret + 1) r) ∧
      ('^' ∉ text.take caret → ∀ passes, replacePasses (passes + 1) text =
        replacePower (text.take caret).reverse (text.drop (caret + 1)) >>= replacePasses passes) ∧
      ∀ next, replacePower (text.take caret).reverse (text.drop (caret + 1)) = .ok next →
        ∃ l r, leftStart text caret = .ok (.ok l) ∧ rightEnd text caret = .ok (.ok r) ∧
          next = text.take l ++ callOf (slice text l caret) (slice text (caret + 1) r) ++ text.drop r ∧
          KeepsDepth text next l r 5 := by
  have hle : caret ≤ text.length := (caret_lt_length hcaret).le
  refine ⟨leftStart_eq hle, rightEnd_eq hcaret, fun l hl => isSpan_of_leftStart hl hle, fun r hr => isSpan_of_rightEnd hr hcaret,
    fun hfirst passes => ?_, fun next => replacePower_spans hcaret⟩
  have h : replacePasses (passes + 1) ((text.take caret).reverse.reverse ++ '^' :: text.drop (caret + 1)) = _ :=
    replacePasses_caret (by simpa using hfirst)
  rwa [List.reverse_reverse, take_append_caret hcaret] at h

/-- The operands of a power sign in a text with a parenthesis too many. -/
theorem operand_spans_unbalanced :
    let text := "(sin(x))^(2+y)*3)".toList
    text[8]? = some '^' ∧ leftStart text 8 = .ok (.ok 0) ∧ rightEnd text 8 = .ok (.ok 14) ∧ IsSpan text 0 8 ∧ IsSpan text 9 14 ∧
      ∃ next, replacePasses 2 text = .ok next ∧ next = "pow((sin(x)),(2+y))*3)".toList ∧ KeepsDepth text next 0 14 5 := by
  intro text
  have hcaret : text[8]? = some '^' := by decide
  obtain ⟨hleft, hright, hspanLeft, hspanRight, -, hpass⟩ := operand_spans hcaret
  have hl : leftStart text 8 = .ok (.ok 0) := hleft.trans (by decide +kernel)
  have hr : rightEnd text 8 = .ok (.ok 14) := hright.trans (by decide +kernel)
  obtain ⟨l, r, hl', hr', -, hkeeps⟩ := hpass "pow((sin(x)),(2+y))*3)".toList (by decide +kernel)
  obtain rfl : 0 = l := Except.ok.inj (Except.ok.inj (hl.symm.trans hl'))
  obtain rfl : 14 = r := Except.ok.inj (Except.ok.inj (hr.symm.trans hr'))
  exact ⟨hcaret, hl, hr, hspanLeft 0 hl, hspanRight 14 hr, _, by decide +kernel, rfl, hkeeps⟩

/-! ### Passes -/

/-- A closed part of a text may be replaced by another one. -/
theorem IsClosed.replace (hys : IsClosed ys) (hys' : IsClosed ys') (h : IsClosed (xs ++ (ys ++ zs))) :
    IsClosed (xs ++ (ys' ++ zs)) where
  nonneg i := by
    rcases le_total i xs.length with hi | hi
    · have hstart := h.nonneg i
      rw [List.take_append_of_le_length hi] at hstart ⊢
      exact hstart
    obtain ⟨i, rfl⟩ := Nat.exists_eq_add_of_le hi
    rw [List.take_length_add_append, depth_append]
    rcases le_total i ys'.length with hi | hi
    · have hstart := h.nonneg xs.length
      rw [List.take_left] at hstart
      rw [List.take_append_of_le_length hi]
      exact add_nonneg hstart (hys'.nonneg i)
    · obtain ⟨i, rfl⟩ := Nat.exists_eq_add_of_le hi
      have hrest := h.nonneg (xs.length + (ys.length + i))
      rw [List.take_length_add_append, List.take_length_add_append, depth_append, depth_append, hys.eq_zero] at hrest
      rwa [List.take_length_add_append, depth_append, hys'.eq_zero]
  eq_zero := by
    have hzero := h.eq_zero
    rw [depth_append, depth_append, hys.eq_zero] at hzero
    rwa [depth_append, depth_append, hys'.eq_zero]

/-- A pass closes and opens no groups outside of the operands. -/
theorem replacePower_isClosed_iff {before after : List Char} (h : replacePower before after = .ok next) :
    IsClosed next ↔ IsClosed (before.reverse ++ '^' :: after) := by
  obtain ⟨start, left, right, rest, rfl, hleft, rfl, hright, rfl⟩ := replacePower_eq_ok_iff.mp h
  have hl := hleft.balanced
  have hr := hright.balanced
  have hpower : IsClosed (left ++ '^' :: right) := (hl.append (.plain (by decide) (by decide) hr)).isClosed
  have hname : Balanced '(' ')' ['p', 'o', 'w'] :=
    .plain (by decide) (by decide) (.plain (by decide) (by decide) (.plain (by decide) (by decide) .nil))
  have hcall : IsClosed (['p', 'o', 'w'] ++ enclosed (left ++ ',' :: right)) :=
    (hname.append (hl.append (.plain (by decide) (by decide) hr)).enclosed).isClosed
  have hnext : start.reverse ++ ('p' :: 'o' :: 'w' :: '(' :: (left ++ ',' :: (right ++ ')' :: rest))) =
      start.reverse ++ (['p', 'o', 'w'] ++ enclosed (left ++ ',' :: right) ++ rest) := by simp [enclosed]
  have htext : (left.reverse ++ start).reverse ++ '^' :: (right ++ rest) =
      start.reverse ++ (left ++ '^' :: right ++ rest) := by simp
  rw [hnext, htext]
  exact ⟨hcall.replace hpower, hpower.replace hcall⟩

/-- **Passes.** They leave a closed text if they started with one, and only then. -/
theorem replacePasses_isClosed_iff {passes : ℕ} (h : replacePasses passes text = .ok next) : IsClosed next ↔ IsClosed text :=
  (replacePasses_induction (motive := fun cs => IsClosed cs ↔ IsClosed text)
    (fun _ hpower hcs => (replacePower_isClosed_iff hpower).trans hcs) h .rfl).1

end Spans

end Numerics.Formula
