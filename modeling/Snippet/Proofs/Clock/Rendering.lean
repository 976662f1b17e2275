import Snippet.Clock.Time
import Snippet.Proofs.Number.Numerals
import Snippet.Proofs.Pattern.Spelling
import Snippet.Proofs.Text.Trimming

/-!
# Times are read back

A time in the style of a reading is an hour, the minutes, the seconds if the style has them, and the
mark of the half of the day if hours go up to twelve (`ClockReading.render_eq`). Reading it gives
the time back, without its seconds where they are not shown, and the style
(`ClockReading.ofText?_render`).
-/

namespace Snippet

/-! ## Times -/

namespace Time

variable (t : Time)

theorem hour_lt : t.hour < 24 := by
  have hlt : t.seconds < 86400 := t.isLt
  rw [hour]
  omega

theorem minute_lt : t.minute < 60 := Nat.mod_lt _ (by decide)

theorem second_lt : t.second < 60 := Nat.mod_lt _ (by decide)

/-- The time without its seconds. -/
def toMinute : Time := ⟨t.seconds - t.seconds % 60, Nat.lt_of_le_of_lt (Nat.sub_le ..) t.isLt⟩

theorem seconds_of_of? {t : Time} {hour minute second : Nat} (h : of? hour minute second = some t) :
    t.seconds = 3600 * hour + 60 * minute + second := by
  rw [of?] at h
  split at h
  · cases h
    rfl
  · cases h

theorem of?_eq : of? t.hour t.minute t.second = some t := by
  have hseconds : 3600 * t.hour + 60 * t.minute + t.second = t.seconds := by
    rw [hour, minute, second]
    omega
  rw [of?, dif_pos ⟨t.hour_lt, t.minute_lt, t.second_lt⟩]
  simp only [hseconds]

theorem of?_toMinute : of? t.hour t.minute 0 = some t.toMinute := by
  have hseconds : 3600 * t.hour + 60 * t.minute + 0 = t.seconds - t.seconds % 60 := by
    rw [hour, minute]
    omega
  rw [of?, dif_pos ⟨t.hour_lt, t.minute_lt, by decide⟩]
  simp only [hseconds]
  rfl

theorem toMinute_eq (h : t.seconds % 60 = 0) : t.toMinute = t := by
  have hseconds : t.seconds - t.seconds % 60 = t.seconds := by omega
  obtain ⟨seconds, hlt⟩ := t
  simp only [toMinute, mk.injEq]
  exact hseconds

theorem seconds_shift (offset : Int) :
    ((t.shift offset).seconds : Int) = (t.seconds + offset) % (daySeconds : Int) := by
  rw [shift]
  refine Int.toNat_of_nonneg (Int.emod_nonneg _ ?_)
  decide

/-- A shift is undone by the shift the other way. -/
theorem shift_neg (offset : Int) : (t.shift offset).shift (-offset) = t := by
  have hlt : t.seconds < 86400 := t.isLt
  have hfirst := t.seconds_shift offset
  have hsecond := (t.shift offset).seconds_shift (-offset)
  rw [show (daySeconds : Int) = 86400 from rfl] at hfirst hsecond
  have hseconds : ((t.shift offset).shift (-offset)).seconds = t.seconds := by omega
  generalize (t.shift offset).shift (-offset) = u at hseconds
  obtain ⟨seconds, _⟩ := u
  obtain rfl : seconds = t.seconds := hseconds
  rfl

/-- A whole minute is shifted to a whole minute by whole minutes. -/
theorem seconds_shift_mod {offset : Int} (h : t.seconds % 60 = 0) (hoffset : offset % 60 = 0) :
    (t.shift offset).seconds % 60 = 0 := by
  have hshift := t.seconds_shift offset
  rw [show (daySeconds : Int) = 86400 from rfl] at hshift
  omega

end Time

/-! ## The text of a time -/

namespace ClockReading

open Regex Pattern

variable (r : ClockReading) (t : Time)

/-- The hour as the dial of a clock shows it. -/
def onDial (hour : Nat) : Nat := if hour % 12 = 0 then 12 else hour % 12

/-- The first letter of the mark of the half of the day. -/
def halfLetter : Char := if t.hour < 12 then 'A' else 'P'

/-- The hour as it is written. -/
def hourText : Text :=
  if r.twelveHour then Decimal.digitsOf (onDial t.hour) else Decimal.padded 2 t.hour

/-- The seconds behind a colon, if they are shown. -/
def secondsText : Text := if r.withSeconds then ':' :: Decimal.padded 2 t.second else []

/-- The mark of the half of the day behind white space, if hours go up to twelve. -/
def halfText : Text := if r.twelveHour then [' ', halfLetter t, 'M'] else []

/-- The time as far as the style shows it. -/
def shown : Time := if r.withSeconds then t else t.toMinute

/-- The parts of a rendered time. -/
theorem render_eq : r.render t =
    r.hourText t ++ ((':' :: Decimal.padded 2 t.minute) ++ (r.secondsText t ++ r.halfText t)) := by
  rw [render, hourText, secondsText, halfText, halfLetter]
  cases r.twelveHour with
  | false => simp
  | true =>
    by_cases hhour : t.hour < 12
    · simp [hhour, onDial]
    · simp [hhour, onDial]

theorem onDial_bounds (hour : Nat) : 1 ≤ onDial hour ∧ onDial hour ≤ 12 := by
  rw [onDial]
  split <;> omega

/-- The hour of the dial and the half of the day tell the hour. -/
theorem hourOfHalf?_onDial {hour : Nat} (h : hour < 24) :
    hourOfHalf? (onDial hour) (decide (12 ≤ hour)) = some hour := by
  obtain ⟨hone, htwelve⟩ := onDial_bounds hour
  have hhour : onDial hour % 12 + (if decide (12 ≤ hour) then 12 else 0) = hour := by
    simp only [onDial, decide_eq_true_eq]
    split <;> split <;> omega
  rw [hourOfHalf?, if_pos (by simp [hone, htwelve]), hhour]

/-! ## What is read of a time -/

theorem nat?_hourText :
    Decimal.nat? (r.hourText t) = some (if r.twelveHour then onDial t.hour else t.hour) := by
  rw [hourText]
  cases r.twelveHour with
  | true => exact Decimal.nat?_digitsOf _
  | false => exact Decimal.nat?_padded ..

theorem isDigit_of_mem_hourText : ∀ x ∈ r.hourText t, x.isDigit := by
  rw [hourText]
  split
  · exact fun _ => Decimal.isDigit_of_mem_digitsOf
  · exact fun _ => Decimal.isDigit_of_mem_padded

theorem length_hourText : 1 ≤ (r.hourText t).length ∧ (r.hourText t).length ≤ 2 := by
  rw [hourText]
  split
  · have hdial := (onDial_bounds t.hour).2
    exact ⟨List.length_pos_iff.mpr (Decimal.digitsOf_ne_nil _),
      (Nat.length_toDigits_le_iff (by decide) (by decide)).mpr (by omega)⟩
  · have hhour := t.hour_lt
    rw [Decimal.length_padded (by decide) (by omega)]
    decide

theorem takes_hourText : Takes shortNumber (r.hourText t) (NoneNext Text.isDigit) noGroups :=
  .timesUpTo (r.length_hourText t).1 (r.length_hourText t).2 fun x hx =>
    Text.isDigit_of_isDigit (r.isDigit_of_mem_hourText t x hx)

theorem takes_padded {n : Nat} (h : n < 60) :
    Takes (times digit 2) (Decimal.padded 2 n) Anything noGroups :=
  .times (Decimal.length_padded (by decide) (by omega)) fun _ hx =>
    Text.isDigit_of_isDigit (Decimal.isDigit_of_mem_padded hx)

theorem takes_clockPart {q : Regex} {v : Text} {next : Text → Prop} {g : Nat → List (Nat × Span)}
    (hq : Takes q v next g) : Takes (clockPart q) (':' :: v) next fun k => g (k + 1) ++ [] :=
  (Takes.char ':').andThen hq

theorem clockPart_starts (q : Regex) : (clockPart q).Starts (· == ':') := .inl fun _ => id

theorem meridiemLetter_starts : meridiemLetter.Starts (Text.isForm ·) :=
  ⟨starts_word (w := "a") (by decide) (by decide), starts_word (w := "p") (by decide) (by decide)⟩

theorem takes_meridiemLetter : Takes meridiemLetter [halfLetter t] Anything noGroups := by
  rw [halfLetter]
  split
  · exact (Takes.one (by decide)).left
  · have hletter : ∀ a v w, ['P'] ++ v = a ++ w → ¬ (letter 'a').Reads a := by
      intro a v w haw hread
      obtain ⟨x, rfl, hx⟩ := (reads_letter_iff (by decide)).mp hread
      obtain rfl : 'P' = x := (List.cons.inj haw).1
      exact absurd hx (by decide)
    have hread : Takes (anyOf ([letter 'a'] ++ letter 'p' :: [])) ['P'] Anything noGroups :=
      .anyOf (List.forall_mem_singleton.mpr hletter) (.one (by decide))
    exact hread

section Mark

variable {q : Regex} {w : Text} {g : Nat → List (Nat × Span)}

theorem takes_meridiem (hq : Takes q [halfLetter t] Anything g) :
    Takes (meridiem q) [halfLetter t, 'M'] (NoneNext (· == '.')) fun k => [] ++ g k := by
  have hpoint : Takes (opt (Regex.char '.')) [] (NoneNext (· == '.')) noGroups :=
    .opt_nil fun _ => id
  have hletter : Takes (letter 'm') ['M'] Anything noGroups := .one (by decide)
  have hrest := hpoint.followedBy (hletter.andThen hpoint) (.cons rfl)
  exact (hq.andThen hrest).opt

/-- The mark of the half of the day is read with the white space in front of it. -/
theorem takes_halfText (h : r.twelveHour) (hq : Takes q [halfLetter t] Anything g) :
    Takes (all [many white, meridiem q]) (r.halfText t) (NoneNext (· == '.')) fun k =>
      g (k + 1) ++ [] := by
  have hblank : Text.isBlank [' '] := rfl
  have hletter : Text.isWhite (halfLetter t) = false := by
    rw [halfLetter]
    split <;> decide
  rw [halfText, if_pos h]
  exact (Takes.white hblank).followedBy (takes_meridiem t hq) (.cons hletter)

/-- White space without a mark behind it is read. -/
theorem takes_blank (hq : q.Starts (Text.isForm ·)) (hw : Text.isBlank w) :
    Takes (all [many white, meridiem q]) w
      (NoneNext fun x => Text.isWhite x || Text.isForm x) noGroups := by
  have hmark : Takes (meridiem q) [] (NoneNext Text.isForm) noGroups := .opt_nil (.inl hq)
  have hread : Takes (all [many white, meridiem q]) (w ++ [])
      (NoneNext fun x => Text.isWhite x || Text.isForm x) noGroups :=
    (Takes.white hw).seq (hmark.mono fun _ hv x hx => (Bool.or_eq_false_iff.mp (hv x hx)).2)
      fun _ hv x hx => (Bool.or_eq_false_iff.mp (hv x hx)).1
  rwa [List.append_nil] at hread

/-- The seconds are read where they are shown. -/
theorem takes_secondsText (hq : Takes q (':' :: Decimal.padded 2 t.second) Anything g)
    (hstarts : q.Starts (· == ':')) : Takes (opt q) (r.secondsText t) (NoneNext (· == ':'))
      fun k => if r.withSeconds then g k else [] := by
  rw [secondsText]
  cases r.withSeconds with
  | true => exact hq.opt.of_anything
  | false => exact .opt_nil hstarts

end Mark

theorem halfText_cases : r.halfText t = [] ∨ ∃ u, r.halfText t = ' ' :: u := by
  rw [halfText]
  split
  · exact .inr ⟨_, rfl⟩
  · exact .inl rfl

/-- The mark of the half of the day at the end of a time. -/
theorem takes_half : Takes (all [many white, meridiem (group 4 meridiemLetter)]) (r.halfText t)
    (· = []) fun k => if r.twelveHour then [(4, ⟨k + 1, k + 1 + 1⟩)] else [] := by
  cases htwelve : r.twelveHour with
  | true =>
    have hread := r.takes_halfText t htwelve ((takes_meridiemLetter t).group 4)
    exact hread.mono noneNext_of_eq_nil
  | false =>
    have hnil : r.halfText t = [] := by rw [halfText, htwelve]; rfl
    have hread := takes_blank (q := group 4 meridiemLetter) (w := []) meridiemLetter_starts rfl
    rw [hnil]
    exact hread.mono noneNext_of_eq_nil

/-- What the pattern for times reads off a rendered time. -/
theorem takes_render : Takes timeOfDay.regex (r.render t) (· = []) fun k =>
    let minute := k + (r.hourText t).length
    let second := minute + (':' :: Decimal.padded 2 t.minute).length
    let half := second + (r.secondsText t).length
    (if r.twelveHour then [(4, ⟨half + 1, half + 1 + 1⟩)] else []) ++
      ((if r.withSeconds then
          [(3, ⟨second + 1, second + 1 + (Decimal.padded 2 t.second).length⟩)] else []) ++
        [(2, ⟨minute + 1, minute + 1 + (Decimal.padded 2 t.minute).length⟩),
          (1, ⟨k, k + (r.hourText t).length⟩)]) := by
  have hminute := (takes_clockPart ((takes_padded t.minute_lt).group 2)).opt
  have hsecond := r.takes_secondsText t (takes_clockPart ((takes_padded t.second_lt).group 3))
    (clockPart_starts _)
  have hnext : ∀ v, v = [] → NoneNext (· == ':') (r.halfText t ++ v) := by
    rintro v rfl
    rcases r.halfText_cases t with hhalf | ⟨u, hhalf⟩
    · simp [hhalf, NoneNext]
    · simp [hhalf, NoneNext]
  have hread := ((r.takes_hourText t).group 1).followedBy
    (hminute.andThen (hsecond.seq (r.takes_half t) hnext)) (.cons rfl)
  rw [render_eq]
  refine hread.congr fun k => ?_
  simp [noGroups]

/-- The texts of two groups behind which two others need not have taken part. -/
theorem text?_of_optional {m : Match} {b b' : Bool} {s₁ s₂ s₃ s₄ : Span}
    (h : m.groups = (if b then [(4, s₄)] else []) ++
      ((if b' then [(3, s₃)] else []) ++ [(2, s₂), (1, s₁)])) (u : Text) :
    m.text? u 1 = some (s₁.of u) ∧ m.text? u 2 = some (s₂.of u) ∧
      m.text? u 3 = (if b' then some (s₃.of u) else none) ∧
      m.text? u 4 = if b then some (s₄.of u) else none := by
  obtain ⟨span, groups⟩ := m
  obtain rfl : groups = _ := h
  cases b <;> cases b' <;> exact ⟨rfl, rfl, rfl, rfl⟩

/-- The groups of a rendered time. -/
theorem exists_full?_render : ∃ m, timeOfDay.full? (r.render t) = some m ∧
    m.text? (r.render t) 1 = some (r.hourText t) ∧
    m.text? (r.render t) 2 = some (Decimal.padded 2 t.minute) ∧
    m.text? (r.render t) 3 = (if r.withSeconds then some (Decimal.padded 2 t.second) else none) ∧
    m.text? (r.render t) 4 = if r.twelveHour then some [halfLetter t] else none := by
  have hrender := r.render_eq t
  obtain ⟨h₁, h₂, h₃, h₄⟩ := text?_of_optional (m := ⟨_, _⟩) rfl (r.render t)
  refine ⟨_, full?_of_takes (r.takes_render t) rfl, h₁.trans (congrArg some ?_),
    h₂.trans (congrArg some ?_), h₃.trans ?_, h₄.trans ?_⟩
  · exact Span.of_eq [] _ _ hrender rfl
  · refine Span.of_eq (r.hourText t ++ [':']) _ (r.secondsText t ++ r.halfText t) ?_ ?_
    · simp [hrender]
    · simp
  · split
    · rename_i hseconds
      refine congrArg some (Span.of_eq
        (r.hourText t ++ (':' :: Decimal.padded 2 t.minute) ++ [':']) _ (r.halfText t) ?_ ?_)
      · simp [hrender, secondsText, hseconds]
      · simp only [List.length_append, List.length_cons, List.length_nil]
        omega
    · rfl
  · split
    · rename_i htwelve
      refine congrArg some (Span.of_eq (r.hourText t ++ (':' :: Decimal.padded 2 t.minute) ++
        r.secondsText t ++ [' ']) [halfLetter t] ['M'] ?_ ?_)
      · simp [hrender, halfText, htwelve]
      · simp only [List.length_append, List.length_cons, List.length_nil]
        omega
    · rfl

/-- There is no white space around a rendered time. -/
theorem trim_render : Text.trim (r.render t) = r.render t := by
  have hdigit : ∀ {x : Char}, x.isDigit → Text.isWhite x = false := fun hx =>
    Text.isWhite_eq_false_of_isAlphanum (Text.isAlphanum_of_isDigit hx)
  have hpadded : ∀ n, ∀ x ∈ (':' :: Decimal.padded 2 n).getLast?, Text.isWhite x = false := by
    intro n x hx
    rcases List.mem_cons.mp (List.mem_of_getLast? hx) with rfl | hx
    · decide
    · exact hdigit (Decimal.isDigit_of_mem_padded hx)
  rw [render_eq]
  refine Text.trim_eq_self (fun x hx => ?_) fun x hx => ?_
  · have hhour : r.hourText t ≠ [] := List.length_pos_iff.mp (r.length_hourText t).1
    rw [List.head?_append_of_ne_nil _ hhour] at hx
    exact hdigit (r.isDigit_of_mem_hourText t x (List.mem_of_mem_head? hx))
  · rw [← List.append_assoc, ← List.append_assoc, halfText] at hx
    split at hx
    · rw [List.getLast?_append_of_ne_nil _ (List.cons_ne_nil _ _)] at hx
      obtain rfl : 'M' = x := by simpa using hx
      decide
    · rw [List.append_nil, secondsText] at hx
      split at hx
      · rw [List.getLast?_append_of_ne_nil _ (List.cons_ne_nil _ _)] at hx
        exact hpadded _ x hx
      · rw [List.append_nil, List.getLast?_append_of_ne_nil _ (List.cons_ne_nil _ _)] at hx
        exact hpadded _ x hx

/-- The hour of the day is told from the hour as it is written and the mark behind it. -/
theorem isPm_halfLetter :
    Text.eqIgnoringCase [halfLetter t] ['p'] = decide (12 ≤ t.hour) := by
  rw [halfLetter]
  split
  · rw [decide_eq_false (by omega)]
    decide
  · rw [decide_eq_true (by omega)]
    decide

/-- The seconds that are read tell the time that is shown. -/
theorem exists_second : ∃ second,
    optionalPart? (if r.withSeconds then some (Decimal.padded 2 t.second) else none) = some second ∧
      Time.of? t.hour t.minute (second.getD 0) = some (r.shown t) ∧
      second.isSome = r.withSeconds := by
  rw [shown]
  cases r.withSeconds with
  | true =>
    refine ⟨some t.second, ?_, t.of?_eq, rfl⟩
    rw [if_pos rfl, optionalPart?, Decimal.nat?_padded]
    rfl
  | false => exact ⟨none, rfl, t.of?_toMinute, rfl⟩

/-- **A rendered time is read back**, without its seconds where they are not shown. -/
theorem ofText?_render : ofText? (r.render t) = some ⟨r.shown t, r.twelveHour, r.withSeconds⟩ := by
  obtain ⟨m, hm, h₁, h₂, h₃, h₄⟩ := r.exists_full?_render t
  obtain ⟨second, hsecond, htime, hisSome⟩ := r.exists_second t
  have hminute : optionalPart? (some (Decimal.padded 2 t.minute)) = some (some t.minute) := by
    rw [optionalPart?, Decimal.nat?_padded]
    rfl
  have hhour := hourOfHalf?_onDial t.hour_lt
  rw [ofText?, r.trim_render t, hm]
  simp only [Option.bind_eq_bind, Option.bind_some, h₁, h₂, h₃, h₄, hminute, hsecond,
    nat?_hourText]
  cases r.twelveHour with
  | true => simp [isPm_halfLetter, hhour, htime, hisSome]
  | false => simp [htime, hisSome]

/-- White space behind a time is not read. -/
theorem ofText?_append_blank {u w : Text} (hw : Text.isBlank w) :
    ofText? (u ++ w) = ofText? u := by
  have hnone : Text.isBlank [] := rfl
  have htrim : Text.trim (u ++ w) = Text.trim u := Text.trim_between hnone hw
  rw [ofText?, ofText?, htrim]

/-- A reading without seconds is of a whole minute. -/
theorem seconds_mod_of_ofText? {u : Text} {r : ClockReading} (h : ofText? u = some r)
    (hseconds : r.withSeconds = false) : r.time.seconds % 60 = 0 := by
  simp only [ofText?, Option.bind_eq_bind, Option.bind_eq_some_iff] at h
  obtain ⟨m, -, -, -, hour, -, minute, -, second, -, h⟩ := h
  have htime : ∃ hour', Time.of? hour' (minute.getD 0) (second.getD 0) = some r.time ∧
      second.isSome = r.withSeconds := by
    split at h
    · cases h
    · split at h
      all_goals
        simp only [Option.bind_eq_some_iff, Option.pure_def, Option.some.injEq] at h
        obtain ⟨hour', -, time, htime, rfl⟩ := h
        exact ⟨hour', htime, rfl⟩
  obtain ⟨hour', htime, hsecond⟩ := htime
  rw [hseconds, Option.isSome_eq_false_iff, Option.isNone_iff_eq_none] at hsecond
  rw [hsecond] at htime
  have hsum := Time.seconds_of_of? htime
  rw [Option.getD_none] at hsum
  omega

end ClockReading

end Snippet
