import Mathlib.Data.List.Basic
import Mathlib.Data.List.Induction
import Numerics.Proofs.Text.Letter
import Numerics.Text.Blank

/-!
# Operands that meet

What stands right before a place of a text, as far as it decides what may follow: `Site` is the state of a scan from the
left, character by character.  An operand may follow an operator, a comma or an opening parenthesis; where one follows
another operand, or a character stands in no token, the scan ends in `Site.clash` and stays there.

Which names may be followed by a parenthesis is a parameter of the scan.
-/

namespace Numerics.Formula

open Text

/-- The characters that end tokens, or do not. -/
inductive Kind where
  | blank
  | digit
  | point
  | start
  | part
  | opening
  | closing
  | star
  | caret
  | sign
  | separator
  | foreign
  deriving Repr, DecidableEq

/-- The kind of a character outside literals and names. -/
def symbolKind (c : Char) : Kind :=
  match c with
  | '(' => .opening
  | ')' => .closing
  | '*' => .star
  | '^' => .caret
  | '+' | '-' => .sign
  | '/' | ',' => .separator
  | _ => .foreign

/-- The kind of a character. -/
def kindOf (c : Char) : Kind :=
  if isBlank c then .blank
  else if c.isDigit then .digit
  else if c = '.' then .point
  else if isNameStart c then .start
  else if isNameChar c then .part
  else symbolKind c

/-! ### Kinds of characters -/

section Kinds

variable {c : Char}

theorem symbolKind_cases : (symbolKind c = .opening ∧ c = '(') ∨ (symbolKind c = .closing ∧ c = ')') ∨
    (symbolKind c = .star ∧ c = '*') ∨ (symbolKind c = .caret ∧ c = '^') ∨
    (symbolKind c = .sign ∧ (c = '+' ∨ c = '-')) ∨ (symbolKind c = .separator ∧ (c = '/' ∨ c = ',')) ∨
    symbolKind c = .foreign := by
  unfold symbolKind
  split <;> simp

/-- No blank is a character of names or literals. -/
theorem blanks_outside : ∀ b ∈ blankRanges, ∀ n ∈ List.range' b.1 (b.2 + 1 - b.1),
    isNameChar (Char.ofNat n) = false ∧ isNumberChar (Char.ofNat n) = false := by decide +kernel

theorem outside_of_isBlank (h : isBlank c = true) : isNameChar c = false ∧ isNumberChar c = false := by
  obtain ⟨b, hb, hc⟩ := List.any_eq_true.mp h
  have hrange : b.1 ≤ c.toNat ∧ c.toNat ≤ b.2 := by simpa using hc
  have := blanks_outside b hb c.toNat (List.mem_range'_1.mpr ⟨hrange.1, by omega⟩)
  rwa [Char.ofNat_toNat] at this

theorem kindOf_of_isBlank (h : isBlank c = true) : kindOf c = .blank := if_pos h

theorem kindOf_of_isDigit (h : c.isDigit = true) : kindOf c = .digit := by
  have hblank : isBlank c = false := by
    rw [Bool.eq_false_iff]
    intro hblank
    have := (outside_of_isBlank hblank).1
    rw [isNameChar_of_isDigit h] at this
    cases this
  simp [kindOf, hblank, h]

theorem kindOf_of_isNameStart (h : isNameStart c = true) : kindOf c = .start := by
  have hname := isNameChar_of_isNameStart h
  have hnumber := isNumberChar_of_isNameStart h
  have hblank : isBlank c = false := by
    rw [Bool.eq_false_iff]
    intro hblank
    rw [(outside_of_isBlank hblank).1] at hname
    cases hname
  simp only [isNumberChar, Bool.or_eq_false_iff, beq_eq_false_iff_ne] at hnumber
  simp [kindOf, hblank, hnumber.1, hnumber.2, h]

/-- What the characters of a kind are. -/
def Kind.Describes : Kind → Char → Prop
  | blank, c => isBlank c = true
  | digit, c => c.isDigit = true
  | point, c => c = '.'
  | start, c => isNameStart c = true
  | part, c => isNameChar c = true ∧ isNameStart c = false ∧ isNumberChar c = false
  | opening, c => c = '('
  | closing, c => c = ')'
  | star, c => c = '*'
  | caret, c => c = '^'
  | sign, c => c = '+' ∨ c = '-'
  | separator, c => c = '/' ∨ c = ','
  | foreign, c => isNameChar c = false ∧ isNumberChar c = false

theorem describes_kindOf (c : Char) : (kindOf c).Describes c := by
  unfold kindOf
  split
  · assumption
  · split
    · assumption
    · split
      · assumption
      · split
        · assumption
        · split
          · simp_all [Kind.Describes, isNumberChar]
          · obtain ⟨h, hc⟩ | ⟨h, hc⟩ | ⟨h, hc⟩ | ⟨h, hc⟩ | ⟨h, hc⟩ | ⟨h, hc⟩ | h := @symbolKind_cases c
            all_goals simp_all [Kind.Describes, isNumberChar]

theorem isNumberChar_iff : isNumberChar c = true ↔ kindOf c = .digit ∨ kindOf c = .point := by
  constructor
  · intro h
    simp only [isNumberChar, Bool.or_eq_true, beq_iff_eq] at h
    rcases h with h | rfl
    · exact .inl (kindOf_of_isDigit h)
    · exact .inr (by decide)
  · have hc := describes_kindOf c
    rintro (h | h) <;> rw [h] at hc
    · exact isNumberChar_of_isDigit hc
    · obtain rfl : c = '.' := hc
      decide

theorem isNameStart_iff : isNameStart c = true ↔ kindOf c = .start := by
  refine ⟨kindOf_of_isNameStart, fun h => ?_⟩
  have hc := describes_kindOf c
  rwa [h] at hc

theorem isNameChar_iff : isNameChar c = true ↔ kindOf c = .digit ∨ kindOf c = .start ∨ kindOf c = .part := by
  have hc := describes_kindOf c
  constructor
  · intro h
    generalize kindOf c = k at hc
    cases k with
    | digit => exact .inl rfl
    | start => exact .inr (.inl rfl)
    | part => exact .inr (.inr rfl)
    | blank =>
      rw [(outside_of_isBlank hc).1] at h
      cases h
    | foreign =>
      rw [hc.1] at h
      cases h
    | sign =>
      rcases hc with rfl | rfl <;> exact absurd h (by decide)
    | separator =>
      rcases hc with rfl | rfl <;> exact absurd h (by decide)
    | _ =>
      obtain rfl := hc
      exact absurd h (by decide)
  · rintro (h | h | h) <;> rw [h] at hc
    · exact isNameChar_of_isDigit hc
    · exact isNameChar_of_isNameStart hc
    · exact hc.1

end Kinds

/-! ### The scan -/

/-- What stands right before a place. -/
inductive Site where
  /-- Nothing that an operand could not follow. -/
  | free
  /-- A star that is not the second one of two. -/
  | star
  /-- A power sign, perhaps with blanks after it. -/
  | power
  /-- The sign of an exponent. -/
  | exponent
  /-- A part of a literal. -/
  | number
  /-- A part of a name: its last character, and those before it, nearest first. -/
  | name (last : Char) (before : List Char)
  /-- A name, and blanks. -/
  | named (last : Char) (before : List Char)
  /-- An operand that is complete. -/
  | closed
  /-- Two operands that have met, or a character of no token. -/
  | clash
  deriving Repr, DecidableEq

namespace Site

/-- What stands before the next place, after a character of the kind. -/
def after (callable : List Char → Bool) (c : Char) : Site → Kind → Site
  | clash, _ => clash
  | _, .foreign => clash
  | _, .caret => power
  | star, .star => power
  | _, .star => star
  | power, .sign => exponent
  | _, .sign => free
  | _, .separator => free
  | _, .closing => closed
  | name last before, .opening => if callable (last :: before) then free else clash
  | named last before, .opening => if callable (last :: before) then free else clash
  | number, .opening => clash
  | closed, .opening => clash
  | _, .opening => free
  | power, .blank => power
  | number, .blank => closed
  | name last before, .blank => named last before
  | named last before, .blank => named last before
  | closed, .blank => closed
  | _, .blank => free
  | number, .digit => number
  | number, .point => number
  | name last before, .digit => name c (last :: before)
  | name last before, .start => name c (last :: before)
  | name last before, .part => name c (last :: before)
  | number, _ => clash
  | name _ _, _ => clash
  | named _ _, _ => clash
  | closed, _ => clash
  | _, .digit => number
  | _, .point => number
  | _, .start => name c []
  | _, .part => clash

/-- What stands before the next place. -/
def next (callable : List Char → Bool) (s : Site) (c : Char) : Site := s.after callable c (kindOf c)

/-- An operand may follow. -/
def isFree : Site → Bool
  | free | star | power | exponent => true
  | _ => false

/-- An operand ends here, or could. -/
def isOperand : Site → Bool
  | number | name _ _ | named _ _ | closed => true
  | _ => false

end Site

/-- What stands before the place after the text. -/
def scan (callable : List Char → Bool) (s : Site) (cs : List Char) : Site := cs.foldl (Site.next callable) s

section Scans

variable {callable : List Char → Bool} {s s' : Site} {c : Char} {cs xs ys : List Char}

@[simp] theorem scan_nil : scan callable s [] = s := rfl

@[simp] theorem scan_cons : scan callable s (c :: cs) = scan callable (s.next callable c) cs := rfl

@[simp] theorem scan_append : scan callable s (xs ++ ys) = scan callable (scan callable s xs) ys := List.foldl_append

@[simp] theorem Site.next_clash : clash.next callable c = clash := rfl

@[simp] theorem scan_clash : scan callable .clash cs = .clash := by
  induction cs with
  | nil => rfl
  | cons c cs ih => exact ih

end Scans

/-! ### Comparing scans -/

/-- The site without the text of a name. -/
def Site.shape : Site → Site
  | name _ _ => name '_' []
  | named _ _ => named '_' []
  | s => s

/-- The second scan stands where the first one does, or has come to a clash; names may differ. -/
def Site.Alike (s s' : Site) : Prop := s' = clash ∨ s.shape = s'.shape

/-- The second scan comes to a clash with every text with which the first one does: they stand at the same place, at two
places where an operand may follow, or the second one after an operand that is complete. -/
def Site.AtMost (s s' : Site) : Prop :=
  s' = clash ∨ s = s' ∨ (s.isFree = true ∧ s'.isFree = true) ∨ (s.isOperand = true ∧ s' = closed)

section Relations

variable {p : List Char → Bool} {s s' : Site} {c c' : Char} {cs : List Char}

theorem Site.Alike.next (h : s.Alike s') (hc : kindOf c = kindOf c') :
    (s.next (fun _ => true) c).Alike (s'.next p c') := by
  unfold Site.next
  rw [hc]
  generalize kindOf c' = k
  rcases h with rfl | h
  · exact .inl rfl
  · cases s <;> cases s' <;> cases h <;> cases k <;>
      first
      | exact .inr rfl
      | (simp only [after, if_true]
         split
         · exact .inr rfl
         · exact .inl rfl)

theorem Site.AtMost.next (h : s.AtMost s') : (s.next p c).AtMost (s'.next p c) := by
  unfold Site.next
  generalize kindOf c = k
  rcases h with rfl | rfl | ⟨h, h'⟩ | ⟨h, rfl⟩
  · exact .inl rfl
  · exact .inr (.inl rfl)
  · cases s <;> cases h <;> cases s' <;> cases h' <;> cases k <;> simp [AtMost, after, isFree, isOperand]
  · cases s <;> cases h <;> cases k <;> simp [AtMost, after, isFree, isOperand]

theorem Site.Alike.clash (h : Site.clash.Alike s') : s' = .clash := by
  rcases h with h | h
  · exact h
  · cases s' <;> cases h
    rfl

theorem Site.Alike.trans {s'' : Site} (h : s.Alike s') (h' : s'.Alike s'') : s.Alike s'' := by
  rcases h with rfl | h
  · exact .inl h'.clash
  · exact h'.imp_right h.trans

theorem Site.Alike.refl (s : Site) : s.Alike s := .inr rfl

theorem Site.AtMost.clash (h : Site.clash.AtMost s') : s' = .clash := by
  rcases h with h | h | ⟨h, -⟩ | ⟨h, -⟩
  · exact h
  · exact h.symm
  · cases h
  · cases h

theorem Site.AtMost.scan (h : s.AtMost s') : (scan p s cs).AtMost (scan p s' cs) := by
  induction cs generalizing s s' with
  | nil => exact h
  | cons c cs ih => exact ih h.next

end Relations

/-! ### Literals and names -/

/-- The place is not within a literal or a name. -/
def Site.isBoundary : Site → Bool
  | number | name _ _ => false
  | _ => true

section Runs

variable {callable : List Char → Bool} {s : Site} {c last : Char} {before run rest : List Char}

theorem scan_number (h : ∀ c ∈ run, isNumberChar c = true) : scan callable .number run = .number := by
  induction run with
  | nil => rfl
  | cons c run ih =>
    obtain ⟨hc, hrun⟩ := List.forall_mem_cons.mp h
    have : Site.number.next callable c = .number := by
      rcases isNumberChar_iff.mp hc with h | h <;> rw [Site.next, h] <;> rfl
    rw [scan_cons, this, ih hrun]

theorem scan_name (h : ∀ c ∈ run, isNameChar c = true) (last : Char) (before : List Char) :
    ∃ last' before', run.reverse ++ last :: before = last' :: before' ∧
      scan callable (.name last before) run = .name last' before' := by
  induction run generalizing last before with
  | nil => exact ⟨last, before, rfl, rfl⟩
  | cons c run ih =>
    obtain ⟨hc, hrun⟩ := List.forall_mem_cons.mp h
    have hnext : (Site.name last before).next callable c = .name c (last :: before) := by
      rcases isNameChar_iff.mp hc with h | h | h <;> rw [Site.next, h] <;> rfl
    obtain ⟨last', before', heq, hscan⟩ := ih hrun c (last :: before)
    exact ⟨last', before', by simpa using heq, by rw [scan_cons, hnext, hscan]⟩

theorem scan_literal (hs : s.isFree = true) (hc : isNumberChar c = true) (hrun : ∀ d ∈ run, isNumberChar d = true) :
    scan callable s (c :: run) = .number := by
  have hnext : s.next callable c = .number := by
    rcases isNumberChar_iff.mp hc with h | h <;> rw [Site.next, h] <;> cases s <;> first | rfl | cases hs
  rw [scan_cons, hnext, scan_number hrun]

theorem scan_word (hs : s.isFree = true) (hc : isNameStart c = true) (hrun : ∀ d ∈ run, isNameChar d = true) :
    ∃ last before, (c :: run).reverse = last :: before ∧ scan callable s (c :: run) = .name last before := by
  have hnext : s.next callable c = .name c [] := by
    rw [Site.next, kindOf_of_isNameStart hc]
    cases s <;> first | rfl | cases hs
  obtain ⟨last, before, heq, hscan⟩ := @scan_name callable run hrun c []
  exact ⟨last, before, by rw [List.reverse_cons, heq], by rw [scan_cons, hnext, hscan]⟩

/-- Where no operand may follow, a literal or a name is a clash. -/
theorem next_of_not_isFree (hs : s.isBoundary = true) (hfree : s.isFree = false)
    (hc : isNumberChar c = true ∨ isNameStart c = true) : s.next callable c = .clash := by
  have hkind : kindOf c = .digit ∨ kindOf c = .point ∨ kindOf c = .start := by
    rw [isNumberChar_iff, isNameStart_iff, or_assoc] at hc
    exact hc
  rcases hkind with h | h | h <;> rw [Site.next, h] <;> cases s <;> first | rfl | (cases hs; done) | cases hfree

/-- Once a literal has ended, an operand is complete. -/
theorem scan_after_literal (hrest : StartsOutside isNumberChar rest) (hne : rest ≠ []) :
    scan callable .number rest = scan callable .closed rest := by
  obtain ⟨d, rest, rfl⟩ := List.exists_cons_of_ne_nil hne
  have hd : ¬ (kindOf d = .digit ∨ kindOf d = .point) := by
    rw [← isNumberChar_iff, hrest d rfl]
    exact Bool.false_ne_true
  have : Site.number.next callable d = Site.closed.next callable d := by
    unfold Site.next
    generalize kindOf d = k at hd
    cases k <;> first | rfl | simp at hd
  rw [scan_cons, scan_cons, this]

/-- Once a name has ended, an operand is complete, or a parenthesis follows. -/
theorem scan_after_word (hrest : StartsOutside isNameChar rest) (hne : rest ≠ []) :
    scan callable (.name last before) rest = scan callable (.named last before) rest := by
  obtain ⟨d, rest, rfl⟩ := List.exists_cons_of_ne_nil hne
  have hd : ¬ (kindOf d = .digit ∨ kindOf d = .start ∨ kindOf d = .part) := by
    rw [← isNameChar_iff, hrest d rfl]
    exact Bool.false_ne_true
  have : (Site.name last before).next callable d = (Site.named last before).next callable d := by
    unfold Site.next
    generalize kindOf d = k at hd
    cases k <;> first | rfl | simp at hd
  rw [scan_cons, scan_cons, this]

/-- A part of a name follows another one, or starts the name where an operand may follow. -/
theorem eq_name_of_next (h : s.next callable c = .name last before) :
    last = c ∧ ((∃ l b, s = .name l b ∧ before = l :: b ∧ isNameChar c = true) ∨ (s.isFree = true ∧ before = [] ∧ isNameStart c = true)) := by
  have hname : kindOf c = .digit ∨ kindOf c = .start ∨ kindOf c = .part → isNameChar c = true := isNameChar_iff.mpr
  have hstart : kindOf c = .start → isNameStart c = true := isNameStart_iff.mpr
  rw [Site.next] at h
  generalize kindOf c = k at h hname hstart
  cases s with
  | name l b =>
    cases k with
    | digit | start | part =>
      cases h
      exact ⟨rfl, .inl ⟨l, b, rfl, rfl, hname (by simp)⟩⟩
    | opening =>
      simp only [Site.after] at h
      split at h <;> cases h
    | _ => cases h
  | named l b =>
    cases k with
    | opening =>
      simp only [Site.after] at h
      split at h <;> cases h
    | _ => cases h
  | _ =>
    cases k <;> cases h <;> exact ⟨rfl, .inr ⟨rfl, rfl, hstart rfl⟩⟩

/-- No operand may follow a part of a name. -/
theorem isNameChar_of_isFree_next (h : (s.next callable c).isFree = true) : isNameChar c = false := by
  rw [Bool.eq_false_iff, ne_eq, isNameChar_iff]
  intro hkind
  rw [Site.next] at h
  rcases hkind with hkind | hkind | hkind <;> rw [hkind] at h <;> cases s <;> cases h

/-- Where a scan is within a name, the text ends in it. -/
theorem exists_of_scan_name {cs : List Char} (h : scan callable .free cs = .name last before) :
    ∃ start, cs.reverse = last :: before ++ start ∧ (∀ c ∈ last :: before, isNameChar c = true) ∧
      (∃ c ∈ (last :: before).getLast?, isNameStart c = true) ∧ StartsOutside isNameChar start := by
  induction cs using List.reverseRecOn generalizing last before with
  | nil => cases h
  | append_singleton cs c ih =>
    rw [scan_append, scan_cons, scan_nil] at h
    obtain ⟨rfl, ⟨l, b, hscan, rfl, hc⟩ | ⟨hfree, rfl, hc⟩⟩ := eq_name_of_next h
    · obtain ⟨start, heq, hall, hletter, hstart⟩ := ih hscan
      refine ⟨start, by rw [List.reverse_append, heq]; rfl, List.forall_mem_cons.mpr ⟨hc, hall⟩, ?_, hstart⟩
      rwa [List.getLast?_cons_cons]
    · refine ⟨cs.reverse, by simp, by simpa using isNameChar_of_isNameStart hc, ⟨_, rfl, hc⟩, ?_⟩
      obtain rfl | ⟨cs, d, rfl⟩ := List.eq_nil_or_concat' cs
      · exact startsOutside_nil
      · rw [scan_append, scan_cons, scan_nil] at hfree
        rw [List.reverse_append]
        exact startsOutside_cons.mpr (isNameChar_of_isFree_next hfree)

end Runs

end Numerics.Formula
