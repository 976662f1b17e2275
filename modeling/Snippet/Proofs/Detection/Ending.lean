import Snippet.Proofs.Detection.Shown

/-!
# What a match ends with

The first match of a standard pipeline without a template ends with a character that is no white
space, if what was tried does (`Pipeline.IsStandard.endsSolid_of_head?`). So nothing is taken off at
the end of the text of an output, and no line is ended twice.
-/

namespace Snippet

variable {t u v : Text}

namespace Text

/-- The last character is no white space. -/
def EndsSolid (t : Text) : Prop := ∃ u c, t = u ++ [c] ∧ isWhite c = false

theorem EndsSolid.append (u : Text) (h : EndsSolid v) : EndsSolid (u ++ v) := by
  obtain ⟨w, c, rfl, hc⟩ := h
  exact ⟨u ++ w, c, (List.append_assoc ..).symm, hc⟩

theorem endsSolid_of_getLast? (hne : t ≠ []) (h : ∀ c ∈ t.getLast?, isWhite c = false) :
    EndsSolid t := by
  obtain ⟨u, c, rfl⟩ := (List.eq_nil_or_concat' t).resolve_left hne
  exact ⟨u, c, rfl, h c (List.getLast?_concat ..)⟩

theorem EndsSolid.isWhite_getLast? (h : EndsSolid t) : ∀ c ∈ t.getLast?, isWhite c = false := by
  obtain ⟨u, c, rfl, hc⟩ := h
  simpa using hc

theorem endsSolid_of_forall (hne : t ≠ []) (h : ∀ c ∈ t, isWhite c = false) : EndsSolid t :=
  endsSolid_of_getLast? hne fun c hc => h c (List.mem_of_getLast? hc)

theorem endsSolid_trim (h : trim t ≠ []) : EndsSolid (trim t) := by
  refine endsSolid_of_getLast? h fun c hc => ?_
  rw [← trimEnd_trim] at hc
  exact isWhite_eq_false_of_getLast?_trimEnd hc

theorem EndsSolid.join {sep : Text} {fields : List Text} (hne : fields ≠ [])
    (h : ∀ f ∈ fields, EndsSolid f) : EndsSolid (join sep fields) := by
  induction fields with
  | nil => exact absurd rfl hne
  | cons f fields ih =>
    rw [List.forall_mem_cons] at h
    cases fields with
    | nil => exact h.1
    | cons g fields =>
      rw [Text.join]
      · exact (ih (List.cons_ne_nil g fields) h.2).append _
      · simp

end Text

open Text

/-! ## Numbers -/

theorem Number.IsFigure.isWhite_eq_false (h : IsFigure t) : ∀ c ∈ t, isWhite c = false := by
  refine h.forall_mem (fun c hc => ?_) (by decide)
  rcases cases_of_isFigureChar hc with hc | rfl | rfl | rfl
  · exact isWhite_eq_false_of_isDigit (isDigit_of_isDigit hc)
  all_goals decide

namespace Decimal

theorem unitsText_ne_nil (n places : Nat) : unitsText n places ≠ [] := by
  unfold unitsText
  dsimp only
  split
  · exact digitsOf_ne_nil _
  · exact List.append_ne_nil_of_right_ne_nil _ (List.cons_ne_nil _ _)

theorem isWhite_eq_false_of_mem_fixed (x : Float) (places : Nat) :
    ∀ c ∈ fixed x places, isWhite c = false := by
  rw [fixed]
  split
  · rw [nonfiniteText]
    split
    · decide
    · split <;> decide
  · rw [magnitudeText_eq]
    split
    · exact (Number.IsFigure.negative (Number.isUnsigned_unitsText ..)).isWhite_eq_false
    · exact (Number.IsFigure.positive (Number.isUnsigned_unitsText ..)).isWhite_eq_false

theorem fixed_ne_nil (x : Float) (places : Nat) : fixed x places ≠ [] := by
  rw [fixed]
  split
  · rw [nonfiniteText]
    split
    · decide
    · split <;> decide
  · rw [magnitudeText_eq]
    split
    · exact List.cons_ne_nil _ _
    · exact unitsText_ne_nil _ places

end Decimal

namespace Number

theorem endsSolid_decimalText (x : Float) (places : Nat) : EndsSolid (decimalText x places) := by
  unfold decimalText trimZeros
  extract_lets trimmed
  have htrimmed : ∀ c ∈ trimmed, c ∈ Decimal.fixed x places := by
    unfold trimmed
    split
    · exact fun c hc => ((dropWhileEnd_prefix_self ..).trans (dropWhileEnd_prefix_self ..)).subset hc
    · exact fun c => id
  split
  · exact ⟨[], '0', rfl, by decide⟩
  · rename_i hne
    simp only [Bool.or_eq_true, decide_eq_true_eq, not_or] at hne
    exact endsSolid_of_forall hne.1 fun c hc =>
      Decimal.isWhite_eq_false_of_mem_fixed x places c (htrimmed c hc)

/-- An amount of money ends with its cents. -/
theorem endsSolid_currencyText? {x : Float} (h : currencyText? x = some v) : EndsSolid v := by
  have hcents : EndsSolid ('.' :: ((Decimal.fixed x.abs 2).dropWhile (· != '.')).tail) := by
    refine endsSolid_of_forall (List.cons_ne_nil _ _) ?_
    rw [List.forall_mem_cons]
    exact ⟨by decide, fun c hc => Decimal.isWhite_eq_false_of_mem_fixed x.abs 2 c
      ((List.dropWhile_sublist _).mem (List.mem_of_mem_tail hc))⟩
  rw [currencyText?] at h
  split at h
  · obtain rfl := Option.some.inj h
    split
    · exact hcents.append ('-' :: '$' :: groupThousands _)
    · exact hcents.append ('$' :: groupThousands _)
  · cases h

theorem endsSolid_resultText? {x : Float} (h : resultText? x = some v) : EndsSolid v := by
  unfold resultText? at h
  split at h
  · extract_lets rounded at h
    split at h
    · obtain rfl := Option.some.inj h
      split
      · exact ⟨[], '0', rfl, by decide⟩
      · exact endsSolid_of_forall (Decimal.fixed_ne_nil _ 0) (Decimal.isWhite_eq_false_of_mem_fixed _ 0)
    · obtain rfl := Option.some.inj h
      exact endsSolid_decimalText ..
  · cases h

end Number

/-! ## Detectors -/

variable {base ctx : Context} {d : Detector} {m : MatchRecord} {id : String}

theorem DateRange.endsSolid_describe (r : DateRange) : EndsSolid r.describe :=
  .append _ ⟨" day".toList, 's', rfl, by decide⟩

/-- A phone number ends with a digit, and the fields behind it are trimmed. -/
theorem Phone.endsSolid (h : (detect t).record? id = some m) : EndsSolid m.raw := by
  unfold detect at h
  dsimp only at h
  split at h
  · cases h
  · split at h
    · split at h
      · rename_i digits hdigits
        cases h
        refine .join (List.cons_ne_nil _ _) ?_
        rw [List.forall_mem_cons]
        refine ⟨?_, fun f hf => ?_⟩
        · obtain ⟨u, x, hu, hx⟩ := exists_last_display (isNational_of_nationalDigits? hdigits)
          exact ⟨u, x, hu, isWhite_eq_false_of_isDigit (isDigit_of_isDigit hx)⟩
        · obtain ⟨hf, hne⟩ := List.mem_filter.mp hf
          obtain ⟨field, -, rfl⟩ := List.mem_map.mp hf
          exact endsSolid_trim (by simpa using hne)
      · cases h
    · cases h

theorem Rating.endsSolid {o : Outcome} (h : detect ctx t = .ok o) (hm : o.record? id = some m) :
    EndsSolid m.raw := by
  obtain ⟨x, amount, hamount, rfl⟩ := exists_amount h hm
  exact Number.endsSolid_currencyText? hamount

theorem Combination.endsSolid (h : (detect t).record? id = some m) : EndsSolid m.raw := by
  obtain ⟨ps, rfl⟩ := exists_describe h
  exact .append _ ⟨"% combine".toList, 'd', rfl, by decide⟩

theorem Arithmetic.endsSolid (h : process none t = some v) : EndsSolid v := by
  obtain ⟨x, hamount | hresult⟩ := texts_of_process h
  · exact Number.endsSolid_currencyText? hamount
  · exact Number.endsSolid_resultText? hresult

theorem Unit.endsSolid {o : Outcome} (h : detector.detect ctx t = .ok o)
    (hm : o.record? id = some m) : EndsSolid m.raw := by
  obtain ⟨x, places, name, hconversion, rfl⟩ := exists_conversion h hm
  exact (endsSolid_of_getLast? (List.cons_ne_nil _ _)
    (caption_of_conversion? hconversion).1.isWhite_getLast?).append _

theorem Clock.endsSolid (h : (Outcome.ofOption (answer? t)).record? id = some m) :
    EndsSolid m.raw := by
  obtain ⟨w, u, hquantity, rfl⟩ := exists_quantity h
  exact endsSolid_of_getLast? (List.append_ne_nil_of_left_ne_nil hquantity.ne_nil u)
    hquantity.isWhite_getLast?

/-- **What a standard detector shows ends with a character that is no white space**, navigation
apart. -/
theorem Detector.endsSolid_of_firstMatch? (htemplate : base.config.template = none)
    (hd : d ∈ textual DateRange.formatter Arithmetic.formatter)
    (h : d.firstMatch? base t = some m) : EndsSolid m.raw := by
  simp only [textual, List.mem_cons, List.not_mem_nil, or_false] at hd
  rcases hd with rfl | rfl | rfl | rfl | rfl | rfl | rfl
  · rw [firstMatch?_dateRange, Option.map_eq_some_iff] at h
    obtain ⟨r, -, rfl⟩ := h
    exact r.endsSolid_describe
  · rw [firstMatch?_phone] at h
    exact Phone.endsSolid h
  · obtain ⟨o, ho, hm⟩ := detect_of_firstMatch? h
    exact Rating.endsSolid ho hm
  · obtain ⟨o, ho, hm⟩ := detect_of_firstMatch? h
    cases ho
    exact Combination.endsSolid hm
  · rw [firstMatch?_arithmetic, htemplate, Option.map_eq_some_iff] at h
    obtain ⟨v, hv, rfl⟩ := h
    exact Arithmetic.endsSolid hv
  · obtain ⟨o, ho, hm⟩ := detect_of_firstMatch? h
    exact Unit.endsSolid ho hm
  · obtain ⟨o, ho, hm⟩ := detect_of_firstMatch? h
    cases ho
    exact Clock.endsSolid hm

/-- **The first match of a standard pipeline ends as solidly as what was tried.** -/
theorem Pipeline.IsStandard.endsSolid_of_head? {p : Pipeline} {config : Config} {today : Date}
    (hp : p.IsStandard config today) (htemplate : config.template = none) (ht : EndsSolid t)
    {scope : Scope} {first : MatchRecord}
    (h : (p.dispatch scope t).log.head? = some first) : EndsSolid first.raw := by
  rcases hp.firstMatch_or_navigation h with ⟨d, hd, hfirst⟩ | rfl
  · exact Detector.endsSolid_of_firstMatch? htemplate hd hfirst
  · exact ht

end Snippet
