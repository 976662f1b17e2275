import Snippet.Arithmetic.Formatter
import Snippet.Proofs.Guarded.Operations
import Snippet.Proofs.Number.Separators
import Snippet.Proofs.Text.Template
import Snippet.Unit.Detector

/-!
# Guarded numbers, templates and arithmetic

The runs of `Snippet.Number`, `Snippet.Template` and `Snippet.Arithmetic`, guarded: signs, groups of
digits and placeholders are cut out of texts, and digits are counted from the end. None of it breaks
off, so the formatter of arithmetic texts does not (`arithmetic_eq`).
-/

namespace Snippet.Guarded

variable {t : Text}

/-! ## Written numbers -/

/-- The sign that a text starts with, and the rest. -/
def sign? (t : Text) : Guarded (Option (Text × Text)) :=
  match Number.splitSign? t with
  | none => pure none
  | some (_, rest) => do
    let sign ← slice t 0 1
    return some (sign, rest)

/-- One sign and one dollar sign in either order: whether the sign is a minus, and the rest. -/
def splitAmount (t : Text) : Guarded (Bool × Text) := do
  match ← sign? (Text.trim t) with
  | some (sign, rest) => return (sign == ['-'], Number.dropDollar rest)
  | none =>
    let rest := Number.dropDollar (Text.trim t)
    match ← sign? rest with
    | some (sign, rest) => return (sign == ['-'], rest)
    | none => return (false, rest)

/-- A run of digits and separators with its separators resolved, for which the bytes behind the last
one are counted. -/
def resolve (run : Text) : Guarded Text :=
  match Number.splitLastSeparator? run with
  | none => pure run
  | some (before, _, _) => do
    let behind ← subtract (Text.utf8Size run) (Text.utf8Size before)
    let _ ← subtract behind 1
    return Number.resolve run

/-- An expression with the separators of all numbers resolved. -/
def resolveAll (expr : Text) : Guarded Text := do
  replace resolve expr 0 (← occurrences Pattern.localizedNumber expr)

/-- The plain form of a written number. -/
def normalize? (token : Text) : Guarded Text := do
  let (negative, rest) ← splitAmount token
  if rest.any Char.isDigit && rest.all fun c => c.isDigit || Number.isSeparator c then
    let plain ← resolve rest
    return if negative then '-' :: plain else plain
  else failure

/-- A text grouped by threes, whose places are counted from the end. -/
def groupFrom : Text → (size : Nat) → Guarded Text
  | [], _ => pure []
  | [c], _ => pure [c]
  | c :: t, size => do
    let size ← subtract size 1
    let grouped ← groupFrom t size
    return if size % 3 = 0 then c :: ',' :: grouped else c :: grouped

theorem sign?_eq (t : Text) :
    sign? t = pure ((Number.splitSign? t).map fun s => ([s.1], s.2)) := by
  cases t with
  | nil => rfl
  | cons c t =>
    by_cases hc : c == '-' || c == '+'
    · have hsize : Text.utf8Size [c] = 1 := by
        rcases Bool.or_eq_true _ _ ▸ hc with hc | hc <;> rw [beq_iff_eq.mp hc] <;> rfl
      have hslice := slice_front [c] t
      rw [hsize, List.singleton_append] at hslice
      simp [sign?, Number.splitSign?, hc, hslice]
    · simp [sign?, Number.splitSign?, hc]

theorem splitAmount_eq (t : Text) : splitAmount t = pure (Number.splitAmount t) := by
  rw [splitAmount, sign?_eq, pure_bind, Number.splitAmount]
  cases Number.splitSign? (Text.trim t) with
  | some s => simp
  | none =>
    simp only [Option.map_none]
    rw [sign?_eq, pure_bind]
    cases Number.splitSign? (Number.dropDollar (Text.trim t)) <;> simp

theorem resolve_eq (run : Text) : resolve run = pure (Number.resolve run) := by
  rw [resolve]
  split
  · rename_i hnone
    rw [Number.resolve, hnone]
  · rename_i before mark after hsplit
    have hmark := mark.utf8Size_pos
    have hbehind : Text.utf8Size run =
        Text.utf8Size before + (mark.utf8Size + Text.utf8Size after) := by
      rw [Number.eq_append_of_splitLastSeparator? hsplit, utf8Size_append, utf8Size_cons]
    rw [hbehind, add_subtract, pure_bind, subtract_eq (by omega), pure_bind]

theorem resolveAll_eq (expr : Text) : resolveAll expr = pure (Number.resolveAll expr) := by
  rw [resolveAll, occurrences_eq, pure_bind, replace_eq resolve_eq]
  rfl

theorem normalize?_eq (token : Text) : normalize? token = option (Number.normalize? token) := by
  rw [normalize?, splitAmount_eq, pure_bind, Number.normalize?]
  simp only [resolve_eq, pure_bind]
  split
  · split <;> simp_all
  · rfl

theorem groupFrom_eq {size : Nat} (h : t.length ≤ size) :
    groupFrom t size = pure (Number.groupFrom t size) := by
  induction t generalizing size with
  | nil => rfl
  | cons c t ih =>
    cases t with
    | nil => rfl
    | cons d t =>
      have hsize : (d :: t).length ≤ size - 1 := Nat.le_sub_one_of_lt h
      have hpos : 1 ≤ size := Nat.le_trans (by simp) h
      rw [groupFrom, subtract_eq hpos, pure_bind, ih hsize, pure_bind]
      · rfl
      · nofun

theorem length_le_utf8Size (t : Text) : t.length ≤ Text.utf8Size t := by
  induction t with
  | nil => exact Nat.le_refl 0
  | cons c t ih =>
    have hpos := c.utf8Size_pos
    rw [utf8Size_cons, List.length_cons]
    omega

/-! ## Shown numbers -/

/-- An amount of money. -/
def currencyText? (x : Float) : Guarded Text :=
  if x.isFinite then do
    let fixed := Decimal.fixed x.abs 2
    let whole := fixed.takeWhile (· != '.')
    let cents := (fixed.dropWhile (· != '.')).tail
    let negative := x < 0.0 && fixed.any fun c => c != '0' && c != '.'
    let grouped ← groupFrom whole (Text.utf8Size whole)
    let amount := '$' :: grouped ++ '.' :: cents
    return if negative then '-' :: amount else amount
  else failure

/-- A float with at most some decimal places, of which there may not be too many. -/
def decimalText (x : Float) (places : Nat) : Guarded Text :=
  if places ≤ Unit.maxPlaces then pure (Number.decimalText x places) else abort

/-- A result as an integer or as a decimal. -/
def resultText? (x : Float) : Guarded Text :=
  if x.isFinite then
    let rounded := Decimal.roundAway x
    if (x - rounded).abs < Number.integerTolerance then
      pure (if rounded == 0.0 then ['0'] else Decimal.fixed rounded 0)
    else decimalText x Number.resultPlaces
  else failure

theorem currencyText?_eq (x : Float) : currencyText? x = option (Number.currencyText? x) := by
  simp only [currencyText?, Number.currencyText?, groupFrom_eq (length_le_utf8Size _), pure_bind,
    apply_ite option, option_some, option_none]
  rfl

theorem decimalText_eq (x : Float) {places : Nat} (h : places ≤ Unit.maxPlaces) :
    decimalText x places = pure (Number.decimalText x places) := if_pos h

theorem resultText?_eq (x : Float) : resultText? x = option (Number.resultText? x) := by
  rw [resultText?, Number.resultText?]
  split
  · rw [decimalText_eq x (by decide)]
    simp only [apply_ite option, option_some]
  · rfl

/-! ## Templates -/

/-- The segments of a template. -/
def segments (t : Text) : Guarded (List Template.Segment) :=
  match h : Text.find? Template.opening t with
  | none => pure [.literal t]
  | some (lit, after) => do
    have _ : after.length + 2 ≤ t.length := Text.length_add_le_of_find? h
    let front ← slice t 0 (Text.utf8Size lit)
    let behind ← slice t (Text.utf8Size lit + 2) (Text.utf8Size t)
    match h' : Text.find? Template.closing after with
    | none =>
      let _ ← slice t (Text.utf8Size lit) (Text.utf8Size t)
      return [.literal front, .unclosed behind]
    | some (key, rest) =>
      have _ : rest.length + 1 ≤ after.length := Text.length_add_le_of_find? h'
      let inside ← slice behind 0 (Text.utf8Size key)
      let _ ← slice behind (Text.utf8Size key + 1) (Text.utf8Size behind)
      return .literal front :: .placeholder inside :: (← segments rest)
termination_by t.length
decreasing_by omega

/-- The template with its placeholders replaced by values. -/
def render (template : Text) (values : List (Text × Text)) : Guarded Text := do
  return (← segments template).flatMap (Template.Segment.render values)

/-- The parts before, at and behind a phrase that was found can be cut out. -/
theorem slices_of_find? {phrase a b : Text} (h : Text.find? phrase t = some (a, b)) :
    slice t 0 (Text.utf8Size a) = pure a ∧
      slice t (Text.utf8Size a) (Text.utf8Size t) = pure (phrase ++ b) ∧
      slice t (Text.utf8Size a + Text.utf8Size phrase) (Text.utf8Size t) = pure b := by
  have hback := slice_back (a ++ phrase) b
  rw [utf8Size_append, List.append_assoc] at hback
  rw [Text.eq_append_of_find? h, List.append_assoc]
  exact ⟨slice_front a _, slice_back a _, hback⟩

theorem segments_eq (t : Text) : segments t = pure (Template.segments t) := by
  have hopening : Text.utf8Size Template.opening = 2 := by decide
  have hclosing : Text.utf8Size Template.closing = 1 := by decide
  fun_induction Template.segments t with
  | case1 t h =>
    rw [segments]
    split
    · rfl
    · rename_i hsome
      simp [h] at hsome
  | case2 t lit after h _ h' =>
    obtain ⟨hfront, hopen, hbehind⟩ := slices_of_find? h
    rw [hopening] at hbehind
    rw [segments]
    split
    · rename_i hnone
      simp [h] at hnone
    · rename_i lit' after' hsome
      obtain ⟨rfl, rfl⟩ : lit = lit' ∧ after = after' := by simpa [h] using hsome
      rw [hfront, pure_bind, hbehind, pure_bind]
      split
      · rw [hopen, pure_bind]
      · rename_i hsome'
        simp [h'] at hsome'
  | case3 t lit after h _ key rest h' _ ih =>
    obtain ⟨hfront, -, hbehind⟩ := slices_of_find? h
    obtain ⟨hinside, -, hrest⟩ := slices_of_find? h'
    rw [hopening] at hbehind
    rw [hclosing] at hrest
    rw [segments]
    split
    · rename_i hnone
      simp [h] at hnone
    · rename_i lit' after' hsome
      obtain ⟨rfl, rfl⟩ : lit = lit' ∧ after = after' := by simpa [h] using hsome
      rw [hfront, pure_bind, hbehind, pure_bind]
      split
      · rename_i hnone'
        simp [h'] at hnone'
      · rename_i key' rest' hsome'
        obtain ⟨rfl, rfl⟩ : key = key' ∧ rest = rest' := by simpa [h'] using hsome'
        rw [hinside, pure_bind, hrest, pure_bind, ih, pure_bind]

theorem render_eq (template : Text) (values : List (Text × Text)) :
    render template values = pure (Template.render template values) := by
  rw [render, segments_eq, pure_bind, Template.render]

/-! ## Arithmetic -/

/-- An expression with its percentages written out, for which the groups of the three shapes are cut
out. -/
def expandPercentages (expr : Text) : Guarded Text := do
  let _ ← attempt (captures Pattern.percentageOf expr)
  let _ ← attempt (captures Pattern.percentageAdd expr)
  let _ ← attempt (captures Pattern.percentageSub expr)
  return Arithmetic.expandPercentages expr

/-- The clean expression of a text. -/
def clean? (t : Text) : Guarded Text := do
  let stripped := t.filter fun c => c != '$' && !Text.isWhite c
  let expr ← expandPercentages (← resolveAll stripped)
  if !expr.isEmpty && expr.all Arithmetic.isClean then return expr else failure

/-- Whether a text is arithmetic. -/
def isArithmetic (t : Text) : Guarded Bool := do
  let body := Text.trim t
  if !body.isEmpty && !Pattern.dateFull.matchesAll body && !Pattern.phoneFormatted.matchesAll body &&
      Pattern.arithmeticCandidate.matchesAll body then
    return (← attempt (clean? body)).any Arithmetic.hasOperation
  else return false

/-- The value of an arithmetic text, as a number and as it is shown. -/
def answer? (body : Text) : Guarded (Text × Text) := do
  let expr ← clean? body
  let x ← option (Arithmetic.evaluate expr)
  let numeric ← resultText? x
  let shown ← if body.contains '$' then currencyText? x else pure numeric
  return (numeric, shown)

/-- The replacement of an arithmetic text. -/
def arithmetic (template : Option Text) (t : Text) : Guarded Text := do
  if ← isArithmetic t then
    let input := Text.trim t
    let (numeric, result) ← answer? input
    match template with
    | none => return result
    | some template =>
      render template
        [("input".toList, input), ("result".toList, result), ("numeric".toList, numeric)]
  else failure

theorem expandPercentages_eq (expr : Text) :
    expandPercentages expr = pure (Arithmetic.expandPercentages expr) := by
  simp only [expandPercentages, captures_eq, attempt_option, pure_bind]

theorem clean?_eq (t : Text) : clean? t = option (Arithmetic.clean? t) := by
  simp only [clean?, Arithmetic.clean?, resolveAll_eq, expandPercentages_eq, pure_bind,
    apply_ite option, option_some, option_none]

theorem isArithmetic_eq (t : Text) : isArithmetic t = pure (Arithmetic.isCandidate t) := by
  simp only [isArithmetic, Arithmetic.isCandidate, clean?_eq, attempt_option, pure_bind]
  split <;> rename_i h
  · rw [h, Bool.true_and]
  · rw [Bool.eq_false_iff.mpr h, Bool.false_and]

theorem answer?_eq (body : Text) : answer? body = option (Arithmetic.answer? body) := by
  rw [answer?, clean?_eq]
  refine option_bind_congr fun expr _ => ?_
  refine option_bind_congr fun x _ => ?_
  rw [resultText?_eq]
  refine option_bind_congr fun numeric _ => ?_
  rw [currencyText?_eq]
  split
  · exact option_bind_congr fun shown _ => rfl
  · rfl

/-- **The formatter of arithmetic texts breaks nothing off.** -/
theorem arithmetic_eq (template : Option Text) (t : Text) :
    arithmetic template t = option (Arithmetic.process template t) := by
  rw [arithmetic, isArithmetic_eq, pure_bind, Arithmetic.process]
  split
  · simp only [answer?_eq, render_eq]
    cases Arithmetic.answer? (Text.trim t) with
    | none => rfl
    | some answer => cases template <;> rfl
  · rfl

end Snippet.Guarded
