import Snippet.Combination
import Snippet.Proofs.Detection.PhoneNumber
import Snippet.Proofs.Guarded.Numbers
import Snippet.Rating.Detector

/-!
# Guarded detectors of quantities

The runs of the detectors of phone numbers, rating codes, combined values and unit conversions,
guarded. Each answers what the detector answers (`phone_eq`, `rating_eq`, `combination_eq`,
`unit_eq`): the digits of a phone number are those of ten places, and the groups of the other texts
are those of a match.
-/

namespace Snippet.Guarded

/-- The answer of a run, which is no match if it has no result. -/
def answer (x : Guarded Outcome) : Except Fault Outcome := x.run.map fun o => o.getD .noMatch

/-! ## Phone numbers -/

/-- The ten digits of a phone number. -/
def nationalDigits? (number : Text) : Guarded Text :=
  let digits := number.filter Char.isDigit
  if digits.length = 10 then pure digits
  else
    match digits with
    | '1' :: rest =>
      if rest.length = 10 then slice digits 1 (Text.utf8Size digits) else failure
    | _ => failure

/-- The form of a phone number, put together from three parts of its digits. -/
def phoneText (digits : Text) : Guarded Text := do
  let area ← slice digits 0 3
  let office ← slice digits 3 6
  let line ← slice digits 6 (Text.utf8Size digits)
  return '(' :: area ++ ") ".toList ++ office ++ '-' :: line

/-- The run of the detector of phone numbers. -/
def phone (t : Text) : Guarded Outcome :=
  match Text.splitWhere (· == ';') (Text.trim t) with
  | [] => failure
  | field :: fields =>
    let number := Text.trim field
    if Pattern.phone.matchesAll number then do
      let digits ← nationalDigits? number
      let shown ← phoneText digits
      return .text (Text.join "; ".toList (shown :: Phone.extras fields))
    else failure

theorem nationalDigits?_eq (number : Text) :
    nationalDigits? number = option (Phone.nationalDigits? number) := by
  have hdigits : ∀ c ∈ number.filter Char.isDigit, c.isDigit := fun c hc => (List.mem_filter.mp hc).2
  simp only [nationalDigits?, Phone.nationalDigits?]
  generalize number.filter Char.isDigit = digits at hdigits
  by_cases hten : digits.length = 10
  · rw [if_pos hten, if_pos hten, option_some]
  · rw [if_neg hten, if_neg hten]
    match digits with
    | [] => rfl
    | c :: rest =>
      by_cases hone : c = '1'
      · subst hone
        have hback : slice ('1' :: rest) 1 (Text.utf8Size ('1' :: rest)) = pure rest :=
          slice_back ['1'] rest
        simp only [hback]
        exact (apply_ite option _ _ _).symm
      · simp [hone]

theorem phoneText_eq {digits : Text} (h : Phone.IsNational digits) :
    phoneText digits = pure (Phone.display digits) := by
  obtain ⟨a, b, c, rfl, ha, hb, harea, hoffice, hline⟩ : ∃ a b c : Text, digits = a ++ (b ++ c) ∧
      a.length = 3 ∧ b.length = 3 ∧ a = digits.take 3 ∧ b = (digits.drop 3).take 3 ∧
      c = digits.drop 6 := by
    refine ⟨digits.take 3, (digits.drop 3).take 3, digits.drop 6, ?_, ?_, ?_, rfl, rfl, rfl⟩
    · rw [show digits.drop 6 = (digits.drop 3).drop 3 by rw [List.drop_drop], List.take_append_drop,
        List.take_append_drop]
    all_goals simp [h.length_eq]
  have hsize : ∀ u : Text, (∀ x ∈ u, x ∈ a ++ (b ++ c)) → Text.utf8Size u = u.length :=
    fun u hu => Text.utf8Size_of_isDigit fun x hx => h.isDigit x (hu x hx)
  have hfront := slice_front a (b ++ c)
  have hmiddle := slice_append a b c
  have hback := slice_back (a ++ b) c
  rw [hsize a fun x hx => List.mem_append_left _ hx, ha] at hfront hmiddle
  rw [hsize b fun x hx => List.mem_append_right a (List.mem_append_left c hx), hb] at hmiddle
  rw [hsize (a ++ b) fun x hx => by simpa [or_assoc] using Or.inl hx, List.append_assoc,
    List.length_append, ha, hb] at hback
  rw [phoneText, hfront, pure_bind, hmiddle, pure_bind, hback, pure_bind, Phone.display, ← harea,
    ← hoffice, ← hline]

theorem phone_eq (t : Text) : answer (phone t) = pure (Phone.detect t) := by
  rw [phone, Phone.detect]
  cases Text.splitWhere (· == ';') (Text.trim t) with
  | nil => rfl
  | cons field fields =>
    simp only [nationalDigits?_eq]
    split
    · cases hdigits : Phone.nationalDigits? (Text.trim field) with
      | none => rfl
      | some digits =>
        rw [option_some, pure_bind, phoneText_eq (Phone.isNational_of_nationalDigits? hdigits)]
        rfl
    · rfl

/-! ## Rating codes and combined values -/

/-- The percentage that a rating code states. -/
def ratingPercentage? (code : Text) : Guarded Nat := do
  let m ← captures Pattern.percentageCode code
  let digits ← option ((m.text? code 1).orElse fun _ => m.text? code 2)
  option (Decimal.nat? digits)

/-- The run of the detector of rating codes. -/
def rating (ctx : Context) (t : Text) : Guarded Outcome := do
  let percentage ← ratingPercentage? (Text.trim t)
  let weeks ← option (ctx.ratings.weeks? percentage)
  match ← attempt (currencyText? (weeks * ctx.config.weeklyRate)) with
  | some amount => return .text amount
  | none =>
    OptionT.mk <| throw <| .failed <| "payout for ".toList ++ Decimal.digitsOf percentage ++
      "% is not finite".toList

/-- The run of the detector of combined values. -/
def combination (t : Text) : Guarded Outcome :=
  let body := Text.trim t
  if Pattern.combination.matchesAll body then do
    let found ← occurrences Pattern.decimal body
    let percentages ← option <| found.mapM fun m =>
      (Decimal.float? (m.text body)).filter fun x => !(100.0 < x)
    if 2 ≤ percentages.length then return .text (Combination.describe percentages) else failure
  else failure

theorem ratingPercentage?_eq (code : Text) :
    ratingPercentage? code = option (Rating.percentage? code) := by
  rw [ratingPercentage?, captures_eq]
  exact option_bind_congr fun m _ => option_bind_congr fun digits _ => rfl

theorem rating_eq (ctx : Context) (t : Text) : answer (rating ctx t) = Rating.detect ctx t := by
  rw [rating, ratingPercentage?_eq, Rating.detect]
  cases Rating.percentage? (Text.trim t) with
  | none => rfl
  | some percentage =>
    simp only [option_some, pure_bind, currencyText?_eq]
    cases ctx.ratings.weeks? percentage with
    | none => rfl
    | some weeks =>
      simp only [option_some, pure_bind, attempt_option]
      cases Number.currencyText? (weeks * ctx.config.weeklyRate) <;> rfl

theorem combination_eq (t : Text) : answer (combination t) = pure (Combination.detect t) := by
  simp only [combination, Combination.detect, Combination.percentages?, occurrences_eq, pure_bind]
  split
  · generalize List.mapM (m := Option) _ _ = percentages
    cases percentages with
    | none => rfl
    | some percentages =>
      simp only [option_some, pure_bind]
      split <;> rfl
  · rfl

/-! ## Units -/

/-- The parts of a conversion text. -/
def unitParts? (t : Text) : Guarded (Text × Text × Text) := do
  let m ← captures Pattern.unitConversion t
  return (← option (m.text? t 1), ← option (m.text? t 2), ← option (m.text? t 3))

/-- The value that a conversion text asks for. -/
def converted? (value source target : Text) : Guarded Float := do
  let x ← option (Decimal.float? (← normalize? value))
  let source ← option (Measure.lookup? source)
  let target ← option (Measure.lookup? target)
  let y ← option (Measure.convert? x source target)
  if y.isFinite then return y else failure

/-- The converted value that a text asks for, with its unit. -/
def conversion? (t : Text) : Guarded (Float × Text) := do
  let (value, source, target) ← unitParts? (Text.trim t)
  return (← converted? value source target, Text.trim target)

/-- The run of the detector of unit conversions. -/
def unit (ctx : Context) (t : Text) : Guarded Outcome := do
  let (x, name) ← conversion? t
  let shown ← decimalText x ctx.config.precision
  return .text (shown ++ ' ' :: name)

theorem unitParts?_eq (t : Text) : unitParts? t = option (Unit.parts? t) := by
  rw [unitParts?, captures_eq]
  exact option_bind_congr fun m _ => option_bind_congr fun value _ =>
    option_bind_congr fun source _ => option_bind_congr fun target _ => rfl

theorem converted?_eq (value source target : Text) :
    converted? value source target = option (Unit.converted? value source target) := by
  rw [converted?, normalize?_eq]
  refine option_bind_congr fun plain _ => option_bind_congr fun x _ => ?_
  refine option_bind_congr fun source _ => option_bind_congr fun target _ => ?_
  exact option_bind_congr fun y _ => (apply_ite option _ _ _).symm

theorem conversion?_eq (t : Text) : conversion? t = option (Unit.conversion? t) := by
  rw [conversion?, unitParts?_eq]
  refine option_bind_congr fun (value, source, target) _ => ?_
  simp only [converted?_eq]
  exact option_bind_congr fun x _ => rfl

theorem unit_eq (ctx : Context) (t : Text) : answer (unit ctx t) = Unit.detector.detect ctx t := by
  simp only [unit, conversion?_eq, Unit.detector]
  cases Unit.conversion? t with
  | none => rfl
  | some conversion =>
    simp only [option_some, pure_bind, decimalText]
    split <;> rfl

end Snippet.Guarded
