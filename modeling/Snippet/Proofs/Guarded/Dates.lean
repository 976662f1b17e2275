import Snippet.Calendar.DateRange
import Snippet.Proofs.Calendar.DateOrder
import Snippet.Proofs.Calendar.TokenSpans
import Snippet.Proofs.Guarded.Operations
import Snippet.Proofs.Number.Numerals

/-!
# Guarded date ranges

The runs of `Snippet.DateToken`, `Snippet.DateParts` and `Snippet.DateRange`, guarded: the places of
tokens are counted in bytes, the texts around a token are cut out, and years are words of 32 bits.
None of it breaks off, so the formatter of date ranges does not (`dateRange_eq`).
-/

namespace Snippet.Guarded

variable {t : Text}

/-! ## Tokens -/

/-- The token in a match, and the texts in front of and behind it, by their bytes. -/
def ofMatch? (t : Text) (m : Match) : Guarded DateToken := do
  let raw ← sliceSpan t m.span
  let trimmed := raw.dropWhile DateToken.isEdgePunctuation
  let token := Text.dropWhileEnd DateToken.isEdgePunctuation trimmed
  let cut ← subtract (Text.utf8Size raw) (Text.utf8Size trimmed)
  let start := byteOf t m.span.start + cut
  let before ← slice t 0 start
  let after ← slice t (start + Text.utf8Size token) (Text.utf8Size t)
  let first := m.span.start + (raw.length - trimmed.length)
  if token.isEmpty || (DateToken.joinsNumber before.reverse || DateToken.joinsNumber after) then
    failure
  else return ⟨⟨first, first + token.length⟩, token⟩

/-- The tokens of some patterns. -/
def candidates (t : Text) : List Pattern → Guarded (List DateToken)
  | [] => pure []
  | p :: patterns => do
    let found ← collect (ofMatch? t) (← occurrences p t)
    return found ++ (← candidates t patterns)

/-- The date tokens of a text; to order them, their lengths are computed. -/
def tokens (t : Text) : Guarded (List DateToken) := do
  let found ← candidates t [Pattern.dateTokenIso, Pattern.dateToken, Pattern.dateTokenText]
  let _ ← collect (fun token => subtract token.span.stop token.span.start) found
  return DateToken.dropOverlaps 0 (found.mergeSort DateToken.comesFirst)

theorem ofMatch?_eq {p : Pattern} {m : Match} (hm : m ∈ p.findAll t) :
    ofMatch? t m = option (DateToken.ofMatch? t m) := by
  obtain ⟨a, u, b, rfl, hoccurs⟩ := Pattern.occurrence_of_mem_findAll hm
  -- the match is what is cut off at its start, the token and what is cut off at its end
  obtain ⟨x, hx⟩ : ∃ x, x ++ u.dropWhile DateToken.isEdgePunctuation = u :=
    ⟨_, List.takeWhile_append_dropWhile⟩
  obtain ⟨y, hy⟩ : ∃ y, Text.dropWhileEnd DateToken.isEdgePunctuation
      (u.dropWhile DateToken.isEdgePunctuation) ++ y = u.dropWhile DateToken.isEdgePunctuation :=
    ⟨_, Text.dropWhileEnd_append_takeWhileEnd _ _⟩
  have hraw : sliceSpan (a ++ (u ++ b)) m.span = pure u := by
    rw [hoccurs.span_eq, sliceSpan_append]
  have htext : m.text (a ++ (u ++ b)) = u := hoccurs.text_eq
  have hstart : m.span.start = a.length := by rw [hoccurs.span_eq]
  simp only [ofMatch?, DateToken.ofMatch?, DateToken.isInsideNumber, hraw, htext, hstart, pure_bind,
    byteOf_append]
  generalize Text.dropWhileEnd DateToken.isEdgePunctuation
    (u.dropWhile DateToken.isEdgePunctuation) = token at hy ⊢
  generalize u.dropWhile DateToken.isEdgePunctuation = trimmed at hx hy ⊢
  subst hy hx
  have hfront := slice_front (a ++ x) (token ++ (y ++ b))
  have hback := slice_back (a ++ x ++ token) (y ++ b)
  have hcut : subtract (Text.utf8Size (x ++ (token ++ y))) (Text.utf8Size (token ++ y)) =
      pure (Text.utf8Size x) := by
    rw [utf8Size_append, Nat.add_comm, add_subtract]
  have hfirst : a.length + ((x ++ (token ++ y)).length - (token ++ y).length) =
      (a ++ x).length := by
    simp only [List.length_append]
    omega
  have htake : (a ++ (x ++ (token ++ (y ++ b)))).take (a ++ x).length = a ++ x := by
    rw [← List.append_assoc, List.take_left]
  have hdrop : (a ++ (x ++ (token ++ (y ++ b)))).drop ((a ++ x).length + token.length) = y ++ b := by
    rw [← List.length_append, ← List.append_assoc, ← List.append_assoc, List.drop_left]
  simp only [List.append_assoc, utf8Size_append, ← Nat.add_assoc] at hfront hback hcut ⊢
  rw [hcut, pure_bind, hfront, pure_bind, hback, pure_bind, hfirst, htake, hdrop, apply_ite option]
  rfl

theorem candidates_eq (t : Text) (patterns : List Pattern) :
    candidates t patterns =
      pure (patterns.flatMap fun p => (p.findAll t).filterMap (DateToken.ofMatch? t)) := by
  induction patterns with
  | nil => rfl
  | cons p patterns ih =>
    rw [candidates, occurrences_eq, pure_bind, collect_eq fun m hm => ofMatch?_eq hm, pure_bind, ih,
      pure_bind, List.flatMap_cons]

theorem tokens_eq (t : Text) : tokens t = pure (DateToken.all t) := by
  have hlengths : ∀ token ∈ DateToken.candidates t,
      subtract token.span.stop token.span.start =
        option (some (token.span.stop - token.span.start)) := by
    intro token htoken
    exact subtract_eq (Nat.le_of_lt (DateToken.start_lt_of_mem_candidates htoken))
  have hcandidates : candidates t [Pattern.dateTokenIso, Pattern.dateToken, Pattern.dateTokenText] =
      pure (DateToken.candidates t) := candidates_eq t _
  rw [tokens, hcandidates, pure_bind, collect_eq hlengths, pure_bind, DateToken.all]

/-! ## Parts -/

/-- The year that two digits stand for. -/
def expandYear (today : Date) (twoDigits : Int) : Guarded Int := do
  let century ← signed 32 (Int.tdiv today.year 100 * 100)
  let year ← signed 32 (century + twoDigits)
  let latest ← signed 32 (today.year + DateParts.centuryWindow)
  if latest < year then signed 32 (year - 100) else return year

/-- The year that digits write. -/
def year? (today : Date) (digits : Text) : Guarded Int := do
  let n ← option (Decimal.nat? digits)
  if digits.length = 2 then expandYear today n else return n

/-- The parts of a token that starts with the month and ends with the year. -/
def ofMdy? (today : Date) (t : Text) (m : Match) : Guarded DateParts := do
  let [month, day, year] ← option (m.alternative? t 3 3) | failure
  let month ← option (Decimal.nat? month)
  let day ← option (Decimal.nat? day)
  let year ← year? today year
  option (DateParts.of? month day (some year))

/-- The parts of a date token. -/
def ofToken? (today : Date) (t : Text) : Guarded DateParts := do
  match ← attempt (captures Pattern.datePartIso t) with
  | some m => option (DateParts.ofIso? t m)
  | none =>
    match ← attempt (captures Pattern.datePartMdy t) with
    | some m => ofMdy? today t m
    | none =>
      match ← attempt (captures Pattern.datePartMd t) with
      | some m => option (DateParts.ofMd? t m)
      | none =>
        match ← attempt (captures Pattern.datePartMonthDay t) with
        | some m => option (DateParts.ofNamed? t m 1 2)
        | none =>
          match ← attempt (captures Pattern.datePartDayMonth t) with
          | some m => option (DateParts.ofNamed? t m 2 1)
          | none => failure

/-- The parts of the tokens of a text that can be read as dates. -/
def parts (today : Date) (t : Text) : Guarded (List DateParts) := do
  collect (fun token => ofToken? today token.text) (← tokens t)

theorem expandYear_eq (today : Date) {n : Int} (h : 0 ≤ n ∧ n < 100) :
    expandYear today n = pure (DateParts.expandYear today n) := by
  have hyear := today.year_bounds
  simp only [Calendar.firstYear, Calendar.lastYear] at hyear
  have hcentury : -300000 ≤ Int.tdiv today.year 100 * 100 ∧
      Int.tdiv today.year 100 * 100 ≤ 300000 := by
    have hsign : Int.sign 100 = 1 := rfl
    rw [Int.tdiv_eq_ediv]
    split <;> omega
  have hword : ∀ y : Int, -400000 ≤ y ∧ y ≤ 400000 → signed 32 y = pure y :=
    fun y hy => signed_eq (by omega)
  have hwindow : DateParts.centuryWindow = 30 := rfl
  rw [expandYear, hword _ (by omega), pure_bind, hword _ (by omega), pure_bind, hword _ (by omega),
    pure_bind, hword _ (by omega), DateParts.expandYear]
  simp only [apply_ite pure]

theorem foldDigits_lt {digits : Text} (h : ∀ c ∈ digits, c.isDigit) (start : Nat) :
    Decimal.foldDigits start digits < (start + 1) * 10 ^ digits.length := by
  induction digits generalizing start with
  | nil => simp [Decimal.foldDigits]
  | cons c digits ih =>
    rw [List.forall_mem_cons] at h
    have hc := Text.toNat_of_isDigit h.1
    have hrest := ih h.2 (start * 10 + (c.toNat - '0'.toNat))
    have hzero : '0'.toNat = 48 := rfl
    have hstart : start * 10 + (c.toNat - '0'.toNat) + 1 ≤ (start + 1) * 10 := by omega
    rw [List.length_cons, Nat.pow_succ', ← Nat.mul_assoc]
    exact Nat.lt_of_lt_of_le hrest (Nat.mul_le_mul_right _ hstart)

theorem lt_of_nat? {digits : Text} {n : Nat} (h : Decimal.nat? digits = some n) :
    n < 10 ^ digits.length := by
  rw [Decimal.nat?] at h
  split at h
  · rename_i hdigits
    obtain rfl := Option.some.inj h
    rw [Bool.and_eq_true, List.all_eq_true] at hdigits
    simpa [Decimal.natOf] using foldDigits_lt hdigits.2 0
  · cases h

theorem year?_eq (today : Date) (digits : Text) :
    year? today digits = option (DateParts.year? today digits) := by
  have hyear : year? today digits = option (Decimal.nat? digits >>= fun n =>
      some (if digits.length = 2 then DateParts.expandYear today n else n)) := by
    refine option_bind_congr fun n hn => ?_
    split
    · rename_i hlength
      have hlt := lt_of_nat? hn
      rw [hlength] at hlt
      exact expandYear_eq today (by omega)
    · rfl
  rw [hyear, DateParts.year?]
  cases Decimal.nat? digits <;> rfl

theorem ofMdy?_eq (today : Date) (t : Text) (m : Match) :
    ofMdy? today t m = option (DateParts.ofMdy? today t m) := by
  refine option_bind_congr fun row _ => ?_
  match row with
  | [month, day, year] =>
    refine option_bind_congr fun month _ => option_bind_congr fun day _ => ?_
    rw [year?_eq]
    exact option_bind_congr fun year _ => rfl
  | [] | [_] | [_, _] | _ :: _ :: _ :: _ :: _ => rfl

theorem ofToken?_eq (today : Date) (t : Text) :
    ofToken? today t = option (DateParts.ofToken? today t) := by
  simp only [ofToken?, captures_eq, attempt_option, pure_bind, ofMdy?_eq]
  rw [DateParts.ofToken?]
  cases Pattern.datePartIso.full? t with
  | some m => rfl
  | none =>
    cases Pattern.datePartMdy.full? t with
    | some m => rfl
    | none =>
      cases Pattern.datePartMd.full? t with
      | some m => rfl
      | none =>
        cases Pattern.datePartMonthDay.full? t with
        | some m => rfl
        | none => cases Pattern.datePartDayMonth.full? t <;> rfl

theorem parts_eq (today : Date) (t : Text) : parts today t = pure (DateRange.parts today t) := by
  rw [parts, tokens_eq, pure_bind, collect_eq fun token _ => ofToken?_eq today token.text]
  rfl

/-! ## Ranges -/

/-- The date of the parts in the year that lies some years after theirs, or else a given date. -/
def moved (p : DateParts) (years : Int) (date : Date) : Guarded Date :=
  match p.year with
  | none => pure date
  | some y => do
    let year ← signed 32 (y + years)
    return (p.inYear year).toDate?.getD date

/-- Two dates, one of which is moved where they are in the wrong order and its year was inferred. -/
def ordered (a b : DateParts) (start stop : Date) : Guarded (Date × Date) :=
  if stop.isBefore start then
    if b.yearInferred then do return (start, ← moved b 1 stop)
    else if a.yearInferred then do return (← moved a (-1) start, stop)
    else pure (start, stop)
  else pure (start, stop)

/-- The range between two written dates, whose days are counted in a word of 64 bits. -/
def resolve? (a b : DateParts) : Guarded DateRange := do
  let start ← option a.toDate?
  let stop ← option b.toDate?
  let (start, stop) ← ordered a b start stop
  let range : DateRange := if stop.isBefore start then ⟨stop, start⟩ else ⟨start, stop⟩
  let _ ← signed 64 range.days
  return range

/-- The range between the first two dates of a text with a cue. -/
def range? (today : Date) (t : Text) : Guarded DateRange :=
  if DateRange.hasCue t then do
    match ← parts today t with
    | a :: b :: _ =>
      let (a, b) := DateRange.fillYears today a b
      resolve? a b
    | _ => failure
  else failure

/-- Whether a text has a cue and two dates. -/
def isRange (today : Date) (t : Text) : Guarded Bool :=
  if DateRange.hasCue t then do return 2 ≤ (← parts today t).length else pure false

/-- The description of the range in a text. -/
def dateRange (today : Date) (t : Text) : Guarded Text := do
  return (← range? today t).describe

theorem moved_eq {p : DateParts} {d : Date} (h : p.toDate? = some d) {years : Int}
    (hyears : -1 ≤ years ∧ years ≤ 1) (date : Date) :
    moved p years date = pure (DateRange.moved p years date) := by
  rw [DateParts.toDate?, Option.bind_eq_some_iff] at h
  obtain ⟨y, hy, hd⟩ := h
  have hyear : d.year = y := by
    rw [Date.of?] at hd
    split at hd
    · obtain rfl := Option.some.inj hd
      rfl
    · cases hd
  have hbounds := d.year_bounds
  simp only [Calendar.firstYear, Calendar.lastYear] at hbounds
  simp only [moved, DateRange.moved, hy]
  rw [signed_eq (by omega), pure_bind]
  rfl

theorem ordered_eq {a b : DateParts} {start stop : Date} (ha : a.toDate? = some start)
    (hb : b.toDate? = some stop) :
    ordered a b start stop = pure (if stop.isBefore start then
      if b.yearInferred then (start, DateRange.moved b 1 stop)
      else if a.yearInferred then (DateRange.moved a (-1) start, stop)
      else (start, stop)
    else (start, stop)) := by
  rw [ordered, moved_eq hb (by decide), moved_eq ha (by decide)]
  simp only [pure_bind, apply_ite pure]

theorem dayNumber_bounds (d : Date) : -400000000 ≤ d.dayNumber ∧ d.dayNumber ≤ 400000000 := by
  have hyear := d.year_bounds
  have hmonth := d.month_bounds
  have hday := d.day_le
  have hbefore : Calendar.daysBeforeMonth d.year d.month ≤ 366 := by
    have hadd := Calendar.daysBeforeMonth_add_le d.year hmonth.1 (Nat.lt_succ_of_le hmonth.2)
    rw [Calendar.daysBeforeMonth_thirteen] at hadd
    split at hadd <;> omega
  simp only [Calendar.firstYear, Calendar.lastYear] at hyear
  simp only [Date.dayNumber, Calendar.daysBeforeYear]
  omega

theorem signed_days (r : DateRange) : signed 64 r.days = pure r.days := by
  have hstart := dayNumber_bounds r.start
  have hstop := dayNumber_bounds r.stop
  refine signed_eq ?_
  rw [DateRange.days]
  omega

theorem resolve?_eq (a b : DateParts) : resolve? a b = option (DateRange.resolve? a b) := by
  refine option_bind_congr fun start hstart => option_bind_congr fun stop hstop => ?_
  simp only [ordered_eq hstart hstop, pure_bind, signed_days]
  rfl

theorem range?_eq (today : Date) (t : Text) :
    range? today t = option (DateRange.ofText? today t) := by
  rw [range?, parts_eq, DateRange.ofText?]
  split
  · rw [pure_bind]
    match DateRange.parts today t with
    | a :: b :: _ => exact resolve?_eq _ _
    | [] | [_] => rfl
  · rfl

theorem isRange_eq (today : Date) (t : Text) :
    isRange today t = pure (DateRange.isCandidate today t) := by
  rw [isRange, parts_eq, DateRange.isCandidate]
  cases DateRange.hasCue t <;> rfl

/-- **The formatter of date ranges breaks nothing off.** -/
theorem dateRange_eq (today : Date) (t : Text) :
    dateRange today t = option ((DateRange.ofText? today t).map DateRange.describe) := by
  rw [dateRange, range?_eq]
  cases DateRange.ofText? today t <;> rfl

end Snippet.Guarded
