import Snippet.Proofs.Arithmetic.Deficit
import Snippet.Proofs.Arithmetic.Prefix

/-!
# What has a value is a sentence

The scan of a clean text follows a prefix of a sentence (`Follows`) until an operand is missing or a
group is closed that was not opened. From then on there is no value to come, with one exception: a
minus that waits for its operand at the end of a group is still waiting behind the group, and there
it takes the place of the operator that the next group needs.

So a clean text with a value is a sentence exactly if no sign stands directly before a closing
parenthesis (`isSentence_iff_of_evaluate`).
-/

namespace Snippet.Arithmetic

/-! ## The scan follows a prefix of a sentence -/

/-- A state of the scan in which the text read is a prefix of a sentence. In front of an operand
there are as many numbers as operators, and behind one there is one more. -/
inductive Follows : Text → Scan → Prop where
  | awaits {n : Nat} {u : Text} {signs : List Sign} {syms : List Symbol} :
      Awaits n u signs → Scan.expectsOperand syms → weight syms = 0 → depth? syms = some n →
      Follows u ⟨syms, [], Sign.negate signs⟩
  | counts {n : Nat} {u digits : Text} {syms : List Symbol} {negative : Bool} :
      Counts n u digits → digits ≠ [] → (∀ c ∈ digits, isNumeric c) →
      weight syms = 0 → depth? syms = some n → Follows u ⟨syms, digits.reverse, negative⟩
  | closes {n : Nat} {u : Text} {syms : List Symbol} :
      Closes n u → u.getLast? = some ')' → weight (.closing :: syms) = 1 →
      depth? (.closing :: syms) = some n → Follows u ⟨.closing :: syms, [], false⟩

/-- A text that ends with an expression, where the symbols are `f` when its last number is ended. -/
def Finishes (u : Text) (f : List Symbol) : Prop :=
  ∃ n, Closes n u ∧ weight f = 1 ∧ depth? f = some n

section

variable {u : Text} {s s' : Scan} {f : List Symbol} {c : Char}

theorem Follows.awaits_nil {n : Nat} {syms : List Symbol} (hu : Awaits n u [])
    (he : Scan.expectsOperand syms) (hweight : weight syms = 0) (hdepth : depth? syms = some n) :
    Follows u ⟨syms, [], false⟩ := by
  have h := Follows.awaits hu he hweight hdepth
  exact h

theorem Follows.counts_singleton {n : Nat} {syms : List Symbol} {negative : Bool}
    (hu : Counts n u [c]) (hc : isNumeric c) (hweight : weight syms = 0)
    (hdepth : depth? syms = some n) : Follows u ⟨syms, [c], negative⟩ := by
  have h : Follows u ⟨syms, [c].reverse, negative⟩ :=
    .counts hu (List.cons_ne_nil c []) (by simpa using hc) hweight hdepth
  exact h

theorem Follows.start : Follows [] {} := .awaits_nil Opens.start.awaits rfl rfl rfl

theorem Finishes.operator (hu : Finishes u f) (hs : s.Completes f) (op : Operator)
    (h : s.step? op.toChar = some s') : Follows (u ++ [op.toChar]) s' := by
  obtain ⟨n, hcloses, hweight, hdepth⟩ := hu
  rw [hs.step?_operator op] at h
  obtain rfl := Option.some.inj h
  refine .awaits (hcloses.operator op) rfl ?_ hdepth
  rw [weight_cons, hweight]
  rfl

theorem Finishes.opening (hu : Finishes u f) (hs : s.Completes f) (h : s.step? '(' = some s') :
    Follows (u ++ ['(']) s' := by
  obtain ⟨n, hcloses, hweight, hdepth⟩ := hu
  rw [hs.step?_opening, Scan.step?_opening rfl] at h
  obtain rfl := Option.some.inj h
  refine .awaits_nil hcloses.opens.awaits rfl ?_ ?_
  · simp [Symbol.weight, hweight]
  · simp [depth?, hdepth]

theorem Finishes.closing (hu : Finishes u f) (hs : s.Completes f) (h : s.step? ')' = some s') :
    s'.Doomed ∨ Follows (u ++ [')']) s' := by
  obtain ⟨n, hcloses, hweight, hdepth⟩ := hu
  rw [hs.step?_closing] at h
  obtain rfl := Option.some.inj h
  cases n with
  | zero => exact .inl (.inl (by simp [depth?, hdepth]))
  | succ n =>
    refine .inr (.closes hcloses.group (by simp) ?_ ?_)
    · simp [Symbol.weight, hweight]
    · simp [depth?, hdepth]

/-- The number that is open, if it can be ended, is the last of the expression. -/
theorem Counts.finishes {n : Nat} {digits : Text} {syms : List Symbol} {negative : Bool} {s₁ : Scan}
    (hu : Counts n u digits) (hne : digits ≠ []) (hd : ∀ c ∈ digits, isNumeric c)
    (hweight : weight syms = 0) (hdepth : depth? syms = some n)
    (h : Scan.endNumber? ⟨syms, digits.reverse, negative⟩ = some s₁) :
    ∃ f, Scan.Completes ⟨syms, digits.reverse, negative⟩ f ∧ Finishes u f := by
  have hopen : digits.reverse.isEmpty = false := by simpa using hne
  unfold Scan.endNumber? at h
  rw [hopen, if_neg Bool.false_ne_true, List.reverse_reverse] at h
  obtain ⟨x, hx, -⟩ := Option.map_eq_some_iff.mp h
  obtain ⟨m, rfl⟩ := exists_literal_of_float? hne hd hx
  refine ⟨.number (if negative then -x else x) :: syms, ⟨?_, rfl⟩, n, hu.closes, ?_, hdepth⟩
  · simp [Scan.endNumber?, hne, hx]
  · rw [weight_cons, hweight]
    rfl

/-- What a step makes of a state that follows a prefix of a sentence. -/
def Goes (u : Text) (s : Scan) : Prop := s.Doomed ∨ ¬ ClosesNoSign u ∨ Follows u s

/-- Behind an expression, a character that is not one of a number ends it. -/
theorem Finishes.goes (hu : Finishes u f) (hs : s.Completes f)
    (hc : c = '(' ∨ c = ')' ∨ ∃ op : Operator, c = op.toChar) (h : s.step? c = some s') :
    Goes (u ++ [c]) s' := by
  rcases hc with rfl | rfl | ⟨op, rfl⟩
  · exact .inr (.inr (hu.opening hs h))
  · exact (hu.closing hs h).imp_right .inr
  · exact .inr (.inr (hu.operator hs op h))

/-- Where an operand must come, the end of a group leaves it out. -/
theorem Awaits.goes_closing {n : Nat} {signs : List Sign} {syms : List Symbol}
    (hu : Awaits n u signs) (hweight : weight syms = 0)
    (h : Scan.step? ⟨syms, [], Sign.negate signs⟩ ')' = some s') : Goes (u ++ [')']) s' := by
  obtain rfl : ⟨.closing :: syms, [], Sign.negate signs⟩ = s' := by
    simpa [Scan.step?, Scan.endNumber?, Scan.push] using h
  rcases List.eq_nil_or_concat signs with rfl | ⟨signs, sign, rfl⟩
  · refine .inl (.inr ?_)
    rw [Sign.negate_nil, Scan.deficit, Scan.owed_closing, weight_cons, hweight]
    decide
  · refine .inr (.inl fun hclosed => ?_)
    obtain ⟨v, lead, -, -, rfl⟩ := hu
    have hlast := (closesNoSign_append.mp hclosed).2.2 sign.toChar (by simp) ')' rfl rfl
    cases sign
    · exact hlast.1 rfl
    · exact hlast.2 rfl

/-- Where an operand must come, a plus or minus is a sign, and any other operator leaves it out. -/
theorem Awaits.goes_operator {n : Nat} {signs : List Sign} {syms : List Symbol}
    (hu : Awaits n u signs) (he : Scan.expectsOperand syms) (hweight : weight syms = 0)
    (hdepth : depth? syms = some n) (op : Operator)
    (h : Scan.step? ⟨syms, [], Sign.negate signs⟩ op.toChar = some s') :
    Goes (u ++ [op.toChar]) s' := by
  rw [Scan.step?_toChar] at h
  split at h
  · rename_i hsign
    obtain rfl := Option.some.inj h
    obtain ⟨sign, hchar, hminus⟩ : ∃ sign : Sign, op.toChar = sign.toChar ∧
        (op == .sub) = Sign.negate [sign] := by
      rcases hsign.2.2 with rfl | rfl
      · exact ⟨.plus, rfl, rfl⟩
      · exact ⟨.minus, rfl, rfl⟩
    rw [hminus, ← Sign.negate_append, hchar]
    exact .inr (.inr (.awaits (hu.sign sign) he hweight hdepth))
  · obtain ⟨s₁, h₁, rfl⟩ := Option.map_eq_some_iff.mp h
    obtain rfl := Option.some.inj h₁
    refine .inl (.inr ?_)
    rw [Scan.deficit, Scan.push, Scan.owed_operator, weight_cons, hweight, Symbol.weight]
    decide

theorem Awaits.goes {n : Nat} {signs : List Sign} {syms : List Symbol} (hu : Awaits n u signs)
    (he : Scan.expectsOperand syms) (hweight : weight syms = 0) (hdepth : depth? syms = some n)
    (hc : isClean c) (h : Scan.step? ⟨syms, [], Sign.negate signs⟩ c = some s') :
    Goes (u ++ [c]) s' := by
  rcases cases_of_isClean hc with hc | rfl | rfl | ⟨op, rfl⟩
  · rw [Scan.step?_numeric _ hc, Scan.readDigit_eq (.inr he)] at h
    obtain rfl := Option.some.inj h
    exact .inr (.inr (.counts_singleton (hu.counts c) hc hweight hdepth))
  · rw [Scan.step?_opening he] at h
    obtain rfl := Option.some.inj h
    refine .inr (.inr (.awaits_nil hu.opens.awaits rfl ?_ ?_))
    · cases Sign.negate signs <;> simp [Symbol.weight, hweight]
    · cases Sign.negate signs <;> simp [depth?, hdepth]
  · exact hu.goes_closing hweight h
  · exact hu.goes_operator he hweight hdepth op h

theorem Follows.goes (hu : Follows u s) (hc : isClean c) (h : s.step? c = some s') :
    Goes (u ++ [c]) s' := by
  cases hu with
  | awaits hu he hweight hdepth => exact hu.goes he hweight hdepth hc h
  | @counts n _ digits syms negative hu hne hd hweight hdepth =>
    rcases cases_of_isClean hc with hnum | hother
    · rw [Scan.step?_numeric _ hnum, Scan.readDigit_eq (.inl (by simpa using hne))] at h
      obtain rfl := Option.some.inj h
      have hcounts : Follows (_ ++ [c]) ⟨syms, (digits ++ [c]).reverse, negative⟩ :=
        .counts (hu.append c) (by simp) (by simpa [or_imp, forall_and] using ⟨hd, hnum⟩) hweight
          hdepth
      rw [List.reverse_append] at hcounts
      exact .inr (.inr hcounts)
    · obtain ⟨s₁, h₁⟩ := Scan.exists_endNumber?_of_step? (by simpa using hne) hother h
      obtain ⟨f, hs, hf⟩ := hu.finishes hne hd hweight hdepth h₁
      exact hf.goes hs hother h
  | @closes n _ syms hu hlast hweight hdepth =>
    rcases cases_of_isClean hc with hnum | hother
    · rw [Scan.step?_numeric_closing hnum, Scan.step?_numeric _ hnum,
        Scan.readDigit_eq (.inr rfl)] at h
      obtain rfl := Option.some.inj h
      refine .inr (.inr (.counts_singleton (hu.counts hlast hnum) hnum ?_ hdepth))
      rw [weight_cons, hweight]
      rfl
    · exact Finishes.goes ⟨n, hu, hweight, hdepth⟩ ⟨rfl, rfl⟩ hother h

/-- **The scan of a clean text follows a prefix of a sentence, or there is no value to come, or a
sign stands before a closing parenthesis.** -/
theorem Goes.reads {t : Text} (hu : Goes u s) (ht : ∀ c ∈ t, isClean c) (h : s.Reads t s') :
    Goes (u ++ t) s' := by
  induction t generalizing u s with
  | nil =>
    obtain rfl := Option.some.inj h
    simpa using hu
  | cons c t ih =>
    rw [Scan.Reads, List.foldlM_cons] at h
    obtain ⟨s₁, hstep, h⟩ := Option.bind_eq_some_iff.mp h
    have hc := ht c (List.mem_cons_self ..)
    rw [List.append_cons]
    refine ih ?_ (fun b hb => ht b (List.mem_cons_of_mem _ hb)) h
    rcases hu with hdoomed | hsign | hfollows
    · exact .inl (hdoomed.step? hc hstep)
    · exact .inr (.inl fun hclosed => hsign (closesNoSign_append.mp hclosed).1)
    · exact hfollows.goes hc hstep

/-- Where the scan ends with one number more than operators and no group open, the text is a
sentence. -/
theorem Follows.isSentence {s₁ : Scan} (hu : Follows u s) (hend : s.endNumber? = some s₁)
    (hweight : weight s₁.symbols = 1) (hdepth : depth? s₁.symbols = some 0) : IsSentence u := by
  cases hu with
  | awaits _ _ hzero _ =>
    obtain rfl := Option.some.inj hend
    rw [hzero] at hweight
    cases hweight
  | counts hu hne hd hzero hopen =>
    obtain ⟨f, hs, n, hcloses, -, hn⟩ := hu.finishes hne hd hzero hopen hend
    obtain rfl := Option.some.inj (hs.1.symm.trans hend)
    obtain rfl := Option.some.inj (hn.symm.trans hdepth)
    exact hcloses.isSentence
  | closes hu _ _ hn =>
    obtain rfl := Option.some.inj hend
    obtain rfl := Option.some.inj (hn.symm.trans hdepth)
    exact hu.isSentence

end

/-! ## A text with a value -/

/-- **A clean text with a value is a sentence, if no sign stands directly before a closing
parenthesis.** -/
theorem isSentence_of_evaluate {s : Text} {v : Float} (hs : s.all isClean)
    (h : evaluate s = some v) (hsign : ClosesNoSign s) : IsSentence s := by
  obtain ⟨s₁, s₂, hreads, hend, hweight, hdepth⟩ := exists_scan_of_evaluate h
  have hgoes : Goes s s₁ := Goes.reads (.inr (.inr .start)) (by simpa using hs) hreads
  rcases hgoes with hdoomed | hnot | hfollows
  · exact (hdoomed.not_complete hend hweight hdepth).elim
  · exact absurd hsign hnot
  · exact hfollows.isSentence hend hweight hdepth

/-- **A clean text with a value is a sentence exactly if no sign stands directly before a closing
parenthesis.** -/
theorem isSentence_iff_of_evaluate (s : Text) (v : Float) (hs : s.all isClean)
    (h : evaluate s = some v) : IsSentence s ↔ ClosesNoSign s :=
  ⟨IsSentence.closesNoSign, isSentence_of_evaluate hs h⟩

theorem isSentence_iff_product_of_group :
    "2*(3+4)".toList.all isClean ∧ evaluate "2*(3+4)".toList = some 14 ∧
      (IsSentence "2*(3+4)".toList ↔ ClosesNoSign "2*(3+4)".toList) :=
  ⟨by decide, by decide +kernel,
    isSentence_iff_of_evaluate "2*(3+4)".toList 14 (by decide) (by decide +kernel)⟩

/-- The minus in the first group negates the second group, and no operator is missed. -/
theorem evaluate_sign_before_closing :
    "(-)(5)".toList.all isClean ∧ evaluate "(-)(5)".toList = some (-5) ∧
      ¬ IsSentence "(-)(5)".toList := by
  refine ⟨by decide, by decide +kernel, fun h => ?_⟩
  exact absurd h.closesNoSign (by decide)

end Snippet.Arithmetic
