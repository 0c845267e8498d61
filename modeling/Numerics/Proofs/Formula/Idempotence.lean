import Numerics.Proofs.Formula.PlainText
import Numerics.Proofs.Formula.PowerCall

/-!
# Normal forms of normal forms

A normal form is a plain text without power signs, so the stages can only take decimal commas from it.  It has one exactly
if some power on the way to it cut a name (`cutsNames`): the comma of that call is read as a decimal comma, and no later
power changes this.  For all other texts the normal form is its own normal form (`normalize_normal_iff`).
-/

namespace Numerics.Formula

open Text

/-- One of the passes over the text meets a power that cuts a name. -/
def passesCutName : Nat → List Char → Bool
  | 0, _ => false
  | passes + 1, cs =>
    match cs.dropWhile (· != '^') with
    | [] => false
    | _ :: after =>
      let before := (cs.takeWhile (· != '^')).reverse
      cutsName before after || (replacePower before after).toOption.any (passesCutName passes)

/-- A power of the formula cuts a name on the way to the normal form. -/
def cutsNames (text : String) : Bool := passesCutName maxPasses (tightenCarets false (plainText text.toList))

/-! ### Passes over plain texts -/

section Passes

variable {passes : Nat} {before after cs replaced : List Char}

theorem passesCutName_of_not_mem (h : '^' ∉ cs) : passesCutName passes cs = false := by
  cases passes with
  | zero => rfl
  | succ passes => rw [passesCutName, dropWhile_of_not_mem h]

theorem passesCutName_caret (h : '^' ∉ before) :
    passesCutName (passes + 1) (before.reverse ++ '^' :: after) =
      (cutsName before after || (replacePower before after).toOption.any (passesCutName passes)) := by
  have htake := congrArg Prod.fst (splitRun_caret h : splitRun _ (before.reverse ++ '^' :: after) = _)
  have hdrop := congrArg Prod.snd (splitRun_caret h : splitRun _ (before.reverse ++ '^' :: after) = _)
  simp only [splitRun] at htake hdrop
  rw [passesCutName, hdrop]
  simp only [htake, List.reverse_reverse]

/-- A call keeps apart what its power sign does. -/
theorem apart_call {x : Char} {start left right rest : List Char} (hx : x ∉ ['p', 'o', 'w', '(', ',', ')', '^'])
    (h : Apart x (start ++ left ++ '^' :: (right ++ rest))) :
    Apart x (start ++ 'p' :: 'o' :: 'w' :: '(' :: (left ++ ',' :: (right ++ ')' :: rest))) := by
  have hne : ∀ y ∈ ['p', 'o', 'w', '(', ',', ')', '^'], y ≠ x := by
    rintro y hy rfl
    exact hx hy
  obtain ⟨hbefore, hafter⟩ := (apart_append_cons (hne '^' (by decide))).mp h
  rw [apart_append_cons (hne 'p' (by decide)), apart_cons (hne 'o' (by decide)), apart_cons (hne 'w' (by decide)),
    apart_cons (hne '(' (by decide)), apart_append_cons (hne ',' (by decide)), apart_append_cons (hne ')' (by decide))]
  exact ⟨hbefore.of_append.1, hbefore.of_append.2, hafter.of_append.1, hafter.of_append.2⟩

/-- A call for a power in a plain text makes a plain text. -/
theorem IsPlain.replacePower (h : IsPlain (before.reverse ++ '^' :: after)) (hpower : replacePower before after = .ok cs) :
    IsPlain cs := by
  obtain ⟨start, left, right, rest, rfl, hl, rfl, hr, rfl⟩ := replacePower_eq_ok_iff.mp hpower
  rw [List.reverse_append, List.reverse_reverse] at h
  have hmem : ∀ c ∈ start.reverse ++ 'p' :: 'o' :: 'w' :: '(' :: (left ++ ',' :: (right ++ ')' :: rest)),
      c ∈ start.reverse ++ left ++ '^' :: (right ++ rest) ∨ c ∈ ['p', 'o', 'w', '(', ',', ')'] := by
    intro c hc
    simp only [List.mem_append, List.mem_cons, List.mem_reverse, List.not_mem_nil, or_false] at hc ⊢
    tauto
  have hcall : ∀ c ∈ ['p', 'o', 'w', '(', ',', ')'], IsSmall c ∧ isBlank c = false := by
    intro c hc
    simp only [List.mem_cons, List.not_mem_nil, or_false] at hc
    rcases hc with rfl | rfl | rfl | rfl | rfl | rfl <;> decide
  refine ⟨fun c hc => ?_, ⟨?_, fun c hc => ?_⟩, apart_call (by decide) h.stars⟩
  · rcases hmem c hc with hc | hc
    · exact h.small c hc
    · exact (hcall c hc).1
  · have hspaces : Apart ' ' (' ' :: start.reverse ++ left ++ '^' :: (right ++ (rest ++ [' ']))) := by
      simpa using h.spaced.apart
    simpa using apart_call (by decide) hspaces
  · rcases hmem c hc with hc | hc
    · exact h.spaced.blank c hc
    · rw [(hcall c hc).2]
      exact nofun

theorem keepsCommas_replacePasses (h : replacePasses passes cs = .ok replaced) (hcut : passesCutName passes cs = false)
    (hkeep : KeepsCommas [] cs []) : KeepsCommas [] replaced [] := by
  induction passes generalizing cs with
  | zero => cases h
  | succ passes ih =>
    by_cases hcaret : '^' ∈ cs
    · obtain ⟨before, after, hbefore, rfl⟩ := exists_first_caret hcaret
      rw [replacePasses_caret hbefore] at h
      obtain ⟨next, hpower, hnext⟩ := bind_eq_ok_iff.mp h
      rw [passesCutName_caret hbefore, hpower, Bool.or_eq_false_iff] at hcut
      exact ih hnext hcut.2 (keepsCommas_replacePower hpower hcut.1 hkeep)
    · rw [replacePasses_of_not_mem hcaret] at h
      cases h
      exact hkeep

theorem HasDecimalComma.replacePasses (h : HasDecimalComma cs) (hpasses : replacePasses passes cs = .ok replaced) :
    HasDecimalComma replaced :=
  (replacePasses_induction (fun hbefore hpower hnext => hnext.replacePower hbefore hpower) hpasses h).1

theorem hasDecimalComma_replacePasses (h : replacePasses passes cs = .ok replaced)
    (hcut : passesCutName passes cs = true) : HasDecimalComma replaced := by
  induction passes generalizing cs with
  | zero => cases h
  | succ passes ih =>
    have hcaret : '^' ∈ cs := by
      by_contra hcaret
      rw [passesCutName_of_not_mem hcaret] at hcut
      cases hcut
    obtain ⟨before, after, hbefore, rfl⟩ := exists_first_caret hcaret
    rw [replacePasses_caret hbefore] at h
    obtain ⟨next, hpower, hnext⟩ := bind_eq_ok_iff.mp h
    rw [passesCutName_caret hbefore, hpower, Bool.or_eq_true] at hcut
    rcases hcut with hcut | hcut
    · exact (hasDecimalComma_of_cutsName hpower hbefore hcut).replacePasses hnext
    · exact ih hnext hcut

end Passes

/-! ### The normal form -/

section Normal

variable {cs normal : List Char}

theorem IsPlain.ne_nil (h : IsPlain cs) : cs ≠ [] := by
  rintro rfl
  exact (apart_cons_cons.mp h.spaced.apart).1 ⟨rfl, rfl⟩

/-- The stages take no more than the decimal commas from a plain text without power signs. -/
theorem IsPlain.normalChars (h : IsPlain cs) (hcaret : '^' ∉ cs) : normalChars cs = .ok (pointCommas cs) := by
  have hcaret' : '^' ∉ pointCommas cs := by
    intro hmem
    rcases mem_pointCommasAfter hmem with hmem | hmem
    · exact hcaret hmem
    · cases hmem
  unfold Formula.normalChars replacePowers maxPasses
  rw [h.spaced.collapseBlanks, h.plainText, if_neg (by simpa using h.ne_nil), tightenCarets_of_not_mem hcaret',
    replacePasses_of_not_mem hcaret']

theorem normalChars_normal_iff (h : normalChars cs = .ok normal) :
    normalChars normal = .ok normal ↔ passesCutName maxPasses (tightenCarets false (plainText cs)) = false := by
  have hcollapse : collapseBlanks cs ≠ [] := by
    intro hnil
    rw [normalChars, hnil] at h
    cases h
  have hpasses : replacePasses maxPasses (tightenCarets false (plainText cs)) = .ok normal := by
    rwa [normalChars, if_neg (by simpa using hcollapse)] at h
  obtain ⟨hplain, hcaret⟩ := replacePasses_induction (motive := IsPlain) (fun _ hpower hnext => hnext.replacePower hpower)
    hpasses (isPlain_plainText hcollapse)
  rw [hplain.normalChars hcaret, Except.ok.injEq, pointCommas_eq_self_iff]
  constructor
  · intro hkeep
    rw [Bool.eq_false_iff]
    exact fun hcut => (hasDecimalComma_replacePasses hpasses hcut).not_keepsCommas hkeep
  · exact fun hcut => keepsCommas_replacePasses hpasses hcut keepsCommas_plainText

end Normal

/-- **Normal forms of normal forms.** The normal form of a text is its own normal form exactly if no power of the text cuts
a name. -/
theorem normalize_normal_iff {text normal : String} (h : normalize text = .ok normal) :
    normalize normal = .ok normal ↔ cutsNames text = false := by
  obtain ⟨cs, hcs, rfl⟩ := map_eq_ok_iff.mp h
  rw [cutsNames, ← normalChars_normal_iff hcs, normalize, String.toList_ofList]
  constructor
  · intro hnormal
    obtain ⟨ds, hds, heq⟩ := map_eq_ok_iff.mp hnormal
    rwa [String.ofList_injective heq] at hds
  · intro hnormal
    rw [hnormal]
    rfl

theorem normalize_normal_of_powers :
    normalize "2 ** x^3,5" = .ok "pow(pow(2,x),3.5)" ∧
      normalize "pow(pow(2,x),3.5)" = .ok "pow(pow(2,x),3.5)" := by
  have h : normalize "2 ** x^3,5" = .ok "pow(pow(2,x),3.5)" := by decide +kernel
  exact ⟨h, (normalize_normal_iff h).mpr (by decide +kernel)⟩

/-- The `2` of `x2^3` is cut off the name, and the comma of the call becomes a decimal point. -/
theorem normalize_cut_name : ¬ ∀ text normal, normalize text = .ok normal → normalize normal = .ok normal := by
  intro h
  have hpoint : normalize "xpow(2,3)" = .ok "xpow(2.3)" := by decide +kernel
  have hsame := h "x2^3" "xpow(2,3)" (by decide +kernel)
  rw [hpoint] at hsame
  exact absurd hsame (by decide)

end Numerics.Formula
