import Snippet.Combination
import Snippet.Proofs.Arithmetic.Percentages
import Snippet.Proofs.Pattern.Stretches
import Snippet.Proofs.Rating.Code

/-!
# Combined values in any order

Percentages that are combined are first put in order, and the order of floats by their bits is total,
so the combined value does not depend on the order in which they come (`Combination.combine_perm`).
The percentages of a combination that is written with numerals are the values of the numerals,
whatever stands around the letters (`Combination.Writes.percentages?_eq`). So the combination is
declined if one of these values is above 100, and otherwise has the same text in every order and
layout (`Combination.detect_in_any_order`).
-/

namespace Snippet

/-! ## The order of floats -/

/-- Floats with one key are the same. -/
theorem Decimal.orderKey_injective {x y : Float} (h : orderKey x = orderKey y) : x = y := by
  have hx := x.toBits.toNat_lt
  have hy := y.toBits.toNat_lt
  have hbits : x.toBits = y.toBits := by
    rw [← UInt64.toNat_inj]
    simp only [orderKey] at h
    split at h <;> split at h <;> omega
  obtain ⟨⟨b, hb⟩⟩ := x
  obtain ⟨⟨c, hc⟩⟩ := y
  obtain rfl : b = c := hbits
  rfl

namespace Combination

open Regex Pattern Arithmetic

theorem pairwise_largestFirst (xs : List Float) :
    (largestFirst xs).Pairwise fun a b => Decimal.orderKey b ≤ Decimal.orderKey a := by
  refine (List.pairwise_mergeSort (fun a b c => ?_) (fun a b => ?_) xs).imp of_decide_eq_true
  · simp only [decide_eq_true_eq]
    exact fun hab hbc => hbc.trans hab
  · simp only [Bool.or_eq_true, decide_eq_true_eq]
    exact le_total ..

/-- There is one order in which floats stand with the largest first. -/
theorem largestFirst_perm {xs ys : List Float} (h : xs.Perm ys) :
    largestFirst xs = largestFirst ys := by
  refine List.Perm.eq_of_pairwise (fun a b _ _ hab hba => ?_) (pairwise_largestFirst xs)
    (pairwise_largestFirst ys)
    ((List.mergeSort_perm xs _).trans (h.trans (List.mergeSort_perm ys _).symm))
  exact Decimal.orderKey_injective (le_antisymm hba hab)

/-- **The combined value does not depend on the order.** -/
theorem combine_perm {xs ys : List Float} (h : xs.Perm ys) : combine xs = combine ys := by
  rw [combine, combine, largestFirst_perm h]

theorem describe_perm {xs ys : List Float} (h : xs.Perm ys) : describe xs = describe ys := by
  rw [describe, describe, combine_perm h]

/-! ## Written combinations -/

/-- The letter c with white space around it. -/
inductive IsJoint : Text → Prop where
  | mk {w₁ w₂ : Text} {c : Char} : Text.isBlank w₁ → c ∈ ['c', 'C'] → Text.isBlank w₂ →
      IsJoint (w₁ ++ c :: w₂)

/-- The texts that join numerals, each with a percent sign or none, by the letter c. -/
inductive Writes : List Numeral → Text → Prop where
  | one {n : Numeral} {v : Text} : IsPercentMark v → Writes [n] (n.text ++ v)
  | join {n : Numeral} {ns : List Numeral} {v j t : Text} : IsPercentMark v → IsJoint j →
      Writes ns t → Writes (n :: ns) (n.text ++ (v ++ (j ++ t)))

variable {ns : List Numeral} {t v j : Text}

theorem IsJoint.ne_nil (h : IsJoint j) : j ≠ [] := by
  obtain ⟨-, -, -⟩ := h
  simp

theorem IsJoint.mem_cases (h : IsJoint j) {x : Char} (hx : x ∈ j) :
    Text.isWhite x ∨ x = 'c' ∨ x = 'C' := by
  obtain ⟨h₁, hc, h₂⟩ := h
  rcases List.mem_append.mp hx with hx | hx
  · exact .inl (List.all_eq_true.mp h₁ x hx)
  · rcases List.mem_cons.mp hx with rfl | hx
    · exact .inr (by simpa using hc)
    · exact .inl (List.all_eq_true.mp h₂ x hx)

/-- What may stand between the numerals does not go on with a number. -/
theorem isDecimalChar_eq_false {x : Char}
    (h : (Text.isWhite x ∨ x = '%') ∨ Text.isWhite x ∨ x = 'c' ∨ x = 'C') :
    isDecimalChar x = false := by
  have hwhite : Text.isWhite x → isDecimalChar x = false :=
    Text.of_isWhite (q := (isDecimalChar · = false)) (by decide +kernel)
  rcases h with (h | rfl) | h | rfl | rfl
  · exact hwhite h
  · decide
  · exact hwhite h
  · decide
  · decide

namespace Writes

theorem ne_nil (h : Writes ns t) : t ≠ [] := by
  cases h with
  | one => simp [Literal.text_ne_nil]
  | join => simp [Literal.text_ne_nil]

/-! ### The text as a whole -/

/-- A value with a percent sign or none, behind a joint. -/
def round : Regex :=
  all [many white, charIn ['c', 'C'], many white, decimalNumber, many white, opt (Regex.char '%')]

theorem reads_round (hj : IsJoint j) (n : Numeral) (hv : IsPercentMark v) :
    round.Reads (j ++ (n.text ++ v)) := by
  obtain ⟨h₁, hc, h₂⟩ := hj
  obtain ⟨a, b, rfl, ha, hb⟩ := hv.exists_reads
  have hwhite : ∀ {w : Text}, Text.isBlank w → (many white).Reads w := fun hw =>
    reads_star_one_iff.mpr (List.all_eq_true.mp hw)
  have hletter : ∀ {c : Char}, c ∈ ['c', 'C'] → (charIn ['c', 'C']).Reads [c] := fun hc =>
    .one (List.contains_iff_mem.mpr hc)
  have hvalue := (hwhite h₂).seq (n.reads.seq (ha.seq hb))
  have hread : round.Reads _ := (hwhite h₁).seq ((hletter hc).seq hvalue)
  simpa using hread

/-- Behind a joint, a combination is read in rounds. -/
theorem reads_many_round (h : Writes ns t) (hj : IsJoint j) : (many round).Reads (j ++ t) := by
  have hne : ∀ {j : Text} (u : Text), IsJoint j → j ++ u ≠ [] := fun u hj hnil =>
    hj.ne_nil (List.append_eq_nil_iff.mp hnil).1
  induction h generalizing j with
  | @one n v hv =>
    have hread : (many round).Reads (j ++ (n.text ++ v) ++ []) :=
      .round (hne _ hj) (reads_round hj n hv) .stop
    rwa [List.append_nil] at hread
  | @join n ns v j' t hv hj' _ ih =>
    have hread : (many round).Reads (j ++ (n.text ++ v) ++ (j' ++ t)) :=
      .round (hne _ hj) (reads_round hj n hv) (ih hj')
    simpa using hread

theorem reads (h : Writes ns t) (hlength : 2 ≤ ns.length) : combination.regex.Reads t := by
  cases h with
  | one => simp at hlength
  | @join n ns v j t hv hj h =>
    obtain ⟨a, b, rfl, ha, hb⟩ := hv.exists_reads
    have hrounds : (many1 round).Reads (j ++ t) := by
      generalize hjt : j ++ t = u
      have hread := h.reads_many_round hj
      rw [hjt] at hread
      cases hread with
      | stop => exact absurd (List.append_eq_nil_iff.mp hjt).1 hj.ne_nil
      | round _ hfirst hrest => exact hfirst.seq hrest
    have hread := n.reads.seq (ha.seq (hb.seq hrounds))
    rwa [← List.append_assoc a] at hread

/-- A combination begins with a digit and ends with a digit or a percent sign. -/
theorem trim_eq (h : Writes ns t) : Text.trim t = t := by
  have hnumeral : ∀ (n : Numeral), ∀ x ∈ n.text, Text.isWhite x = false := fun n x hx => by
    rcases Bool.or_eq_true_iff.mp (n.isNumeric_of_mem hx) with hdigit | hpoint
    · exact Text.isWhite_eq_false_of_isDigit (Text.isDigit_of_isDigit hdigit)
    · rw [beq_iff_eq.mp hpoint]
      rfl
  have hhead : ∀ {n : Numeral} {v : Text}, ∀ x ∈ (n.text ++ v).head?, Text.isWhite x = false :=
    fun {n v} x hx => by
      rw [List.head?_append_of_ne_nil _ n.text_ne_nil] at hx
      exact hnumeral n x (List.mem_of_mem_head? hx)
  refine Text.trim_eq_self ?_ ?_
  · cases h with
    | one => exact hhead
    | join => exact hhead
  · induction h with
    | @one n v hv =>
      intro x hx
      cases v with
      | nil =>
        rw [List.append_nil] at hx
        exact hnumeral n x (List.mem_of_getLast? hx)
      | cons y v =>
        rw [List.getLast?_append_of_ne_nil _ (List.cons_ne_nil y v)] at hx
        rw [hv.getLast?_eq x hx]
        rfl
    | @join n ns v j t _ _ h ih =>
      rwa [← List.append_assoc, ← List.append_assoc, List.getLast?_append_of_ne_nil _ h.ne_nil]

/-! ### The numbers in the text -/

theorem finds (h : Writes ns t) : decimal.Finds t (ns.map (·.text)) := by
  have hdigit : ∀ x, Text.isDigit x → isDecimalChar x := fun x hx => by
    rw [isDecimalChar, hx, Bool.true_or]
  have hstarts : decimal.regex.Starts (isDecimalChar ·) := .inl (.inl hdigit)
  have hskip : ∀ {w : Text}, (∀ x ∈ w, isDecimalChar x = false) → ∀ x ∈ w, ¬ isDecimalChar x :=
    fun hw x hx => by simp [hw x hx]
  induction h with
  | @one n v hv =>
    have hrest : ∀ x ∈ v, isDecimalChar x = false := fun x hx =>
      isDecimalChar_eq_false (.inl (hv.mem_cases hx))
    have hnil : decimal.Finds v [] := by
      have hall := Finds.nil.skipAll hstarts (hskip hrest)
      rwa [List.append_nil] at hall
    exact .take (takes_decimalNumber n.reads) n.text_ne_nil
      (fun x hx => hrest x (List.mem_of_mem_head? hx)) hnil
  | @join n ns v j t hv hj _ ih =>
    have hrest : ∀ x ∈ v ++ j, isDecimalChar x = false := fun x hx =>
      isDecimalChar_eq_false ((List.mem_append.mp hx).imp hv.mem_cases hj.mem_cases)
    have hmore := ih.skipAll hstarts (hskip hrest)
    rw [List.append_assoc] at hmore
    refine .take (takes_decimalNumber n.reads) n.text_ne_nil (fun x hx => ?_) hmore
    rw [← List.append_assoc, List.head?_append_of_ne_nil _ (by simp [hj.ne_nil])] at hx
    exact hrest x (List.mem_of_mem_head? hx)

/-- Values that all satisfy a condition. -/
theorem mapM_filter_eq (p : Float → Bool) (ns : List Numeral) :
    (ns.mapM fun n => (some n.value).filter p) =
      if ns.all fun n => p n.value then some (ns.map (·.value)) else none := by
  induction ns with
  | nil => rfl
  | cons n ns ih =>
    rw [List.mapM_cons, ih, Option.filter_some, List.all_cons]
    cases p n.value <;> cases ns.all fun n => p n.value <;> rfl

/-- **The percentages in a combination are the values of its numerals.** -/
theorem percentages?_eq (h : Writes ns t) :
    percentages? t =
      if ns.all fun n => !(100.0 < n.value) then some (ns.map (·.value)) else none := by
  have hne : ¬ decimal.regex.Reads [] := fun hread => by
    obtain ⟨x, u, hnil, -⟩ := hread.exists_cons (p := (Text.isDigit ·)) (.inl (.inl fun _ => id))
    cases hnil
  rw [← mapM_filter_eq fun x => !(100.0 < x), percentages?]
  have hfloat : ∀ n : Numeral, (Decimal.float? n.text).filter (fun x => !(100.0 < x)) =
      (some n.value).filter fun x => !(100.0 < x) := fun n => by rw [n.float?_text]
  have htexts := congrArg
    (List.mapM fun u : Text => (Decimal.float? u).filter fun x => !(100.0 < x))
    (h.finds.map_text_eq hne)
  rw [List.mapM_map, List.mapM_map] at htexts
  exact htexts.trans (congrArg (List.mapM · ns) (funext hfloat))

/-- A combination is declined, or has the text of its values. -/
theorem detect_eq (h : Writes ns t) (hlength : 2 ≤ ns.length) :
    detect t =
      if ns.all fun n => !(100.0 < n.value) then .text (describe (ns.map (·.value)))
      else .noMatch := by
  have hmatches : combination.matchesAll t :=
    (matchesAll_iff_reads rfl).mpr (h.reads hlength)
  rw [detect, h.trim_eq, if_pos hmatches, h.percentages?_eq]
  cases ns.all fun n => !(100.0 < n.value) with
  | false => rfl
  | true =>
    have hvalues : 2 ≤ (ns.map fun n => n.value).length := by rwa [List.length_map]
    exact if_pos hvalues

end Writes

/-- **A combination is declined if a value in it is above 100. Otherwise it has the text of its
values, and this is the same in every order and layout.** -/
theorem detect_in_any_order :
    (∀ (ns : List Numeral) (t : Text), 2 ≤ ns.length → Writes ns t →
      (detect t = .noMatch ↔ ∃ n ∈ ns, 100.0 < n.value) ∧
      ((∀ n ∈ ns, ¬ 100.0 < n.value) → detect t = .text (describe (ns.map (·.value)))) ∧
      (∀ w₁ w₂, Text.isBlank w₁ → Text.isBlank w₂ → detect (w₁ ++ t ++ w₂) = detect t) ∧
      ∀ ms u, ms.Perm ns → Writes ms u → detect u = detect t) ∧
    ∀ xs ys : List Float, xs.Perm ys → combine xs = combine ys := by
  refine ⟨fun ns t hlength h => ⟨?_, ?_, ?_, ?_⟩, fun _ _ => combine_perm⟩
  · rw [h.detect_eq hlength]
    by_cases hall : ns.all fun n => !(100.0 < n.value)
    · rw [if_pos hall]
      simpa using hall
    · rw [if_neg hall]
      simpa using hall
  · intro hall
    rw [h.detect_eq hlength, if_pos (by simpa using hall)]
  · intro w₁ w₂ h₁ h₂
    rw [detect, detect, Text.trim_between h₁ h₂]
  · intro ms u hperm hu
    have hlength' : 2 ≤ ms.length := hperm.length_eq ▸ hlength
    rw [h.detect_eq hlength, hu.detect_eq hlength', describe_perm (hperm.map _),
      hperm.all_eq]

/-- Two numerals in both orders, and one with a value above 100. -/
theorem detect_thirty_and_fifty :
    detect "50c30".toList = .text "65% combined".toList ∧
      detect "30 % C50".toList = detect "50c30".toList ∧
      detect "30c100.5".toList = .noMatch := by
  let thirty : Numeral :=
    ⟨⟨"30".toList, none, by decide, by decide, by decide⟩, by decide, by decide⟩
  let fifty : Numeral :=
    ⟨⟨"50".toList, none, by decide, by decide, by decide⟩, by decide, by decide⟩
  let more : Numeral :=
    ⟨⟨"100".toList, some ['5'], by decide, by decide, by decide⟩, by decide, by decide⟩
  have hjoint : IsJoint ['c'] := @IsJoint.mk [] [] 'c' rfl (by decide) rfl
  have hsign : IsPercentMark [' ', '%'] := .sign (w := [' ']) rfl
  have hjoint' : IsJoint [' ', 'C'] := @IsJoint.mk [' '] [] 'C' rfl (by decide) rfl
  have hfirst : Writes [fifty, thirty] "50c30".toList := .join .none hjoint (.one .none)
  have hsecond : Writes [thirty, fifty] "30 % C50".toList := .join hsign hjoint' (.one .none)
  have hthird : Writes [thirty, more] "30c100.5".toList := .join .none hjoint (.one .none)
  obtain ⟨-, htext, -, hperm⟩ :=
    detect_in_any_order.1 [fifty, thirty] "50c30".toList (by decide) hfirst
  obtain ⟨hdeclined, -⟩ :=
    detect_in_any_order.1 [thirty, more] "30c100.5".toList (by decide) hthird
  refine ⟨?_, hperm _ _ (.swap _ _ []) hsecond, hdeclined.mpr ⟨more, by simp, by decide +kernel⟩⟩
  have hsorted : largestFirst [fifty.value, thirty.value] = [fifty.value, thirty.value] :=
    List.mergeSort_of_pairwise (by decide +kernel)
  rw [htext (by decide +kernel), describe, combine, List.map_cons, List.map_singleton, hsorted]
  decide +kernel

/-- The number that a literal writes, and not only its value, is above a natural number. -/
def Exceeds (n : Literal) (k : Nat) : Prop :=
  k * 10 ^ (n.fraction.getD []).length < Decimal.natOf (n.whole ++ n.fraction.getD [])

instance (n : Literal) (k : Nat) : Decidable (Exceeds n k) := inferInstanceAs (Decidable (_ < _))

/-- A number above 100 whose value is 100 does not make a combination declined. -/
theorem not_detect_iff_exceeds :
    ¬ ∀ (ns : List Numeral) (t : Text), 2 ≤ ns.length → Writes ns t →
      (detect t = .noMatch ↔ ∃ n ∈ ns, Exceeds n.toLiteral 100) := by
  intro h
  let above : Numeral :=
    ⟨⟨"100".toList, some "000000000000001".toList, by decide, by decide, by decide⟩, by decide,
      by decide⟩
  let thirty : Numeral :=
    ⟨⟨"30".toList, none, by decide, by decide, by decide⟩, by decide, by decide⟩
  have hjoint : IsJoint ['c'] := @IsJoint.mk [] [] 'c' rfl (by decide) rfl
  have hwrites : Writes [above, thirty] "100.000000000000001c30".toList :=
    .join .none hjoint (.one .none)
  have hexceeds : Exceeds above.toLiteral 100 := by decide
  have hdeclined := (h _ _ (by decide) hwrites).mpr ⟨above, by simp, hexceeds⟩
  have hvalues : [above, thirty].all fun n => !(100.0 < n.value) := by decide +kernel
  rw [hwrites.detect_eq (by decide), if_pos hvalues] at hdeclined
  cases hdeclined

end Combination

end Snippet
