import Snippet.Proofs.Clock.Rendering
import Snippet.Proofs.Guarded.Standard

/-!
# Durations that are written like a clock

A duration in the form of a clock has hours of any number of digits, and minutes and perhaps seconds
of two digits each (`Duration.ClockForm`). It is read exactly if the minutes and the seconds are
below 60 and the number of seconds fits into a signed word of 64 bits
(`Duration.seconds?_clockForm`).

On a machine the seconds are counted in such words. The hours are read digit by digit, and fail to
be read where a step leaves the range of the word, which leading zeros never do
(`Guarded.readWord?_eq`). The seconds of the hours and the sum of all seconds are checked as well;
the seconds of the minutes are not, and never need to be (`Guarded.wordSeconds?_eq`).
-/

namespace Snippet

open Regex Pattern

/-! ## Numbers that are read into words -/

namespace Guarded

variable {bits : Nat} {digits t : Text} {m : Match}

/-- A signed number, if it is in the range of a word of some bits. -/
def checked (bits : Nat) (n : Int) : Option Int :=
  if -2 ^ (bits - 1) ≤ n ∧ n < 2 ^ (bits - 1) then some n else none

/-- The number with a further digit behind those that have been read, if no step leaves the range of
the word. -/
def readDigit? (bits : Nat) (n : Int) (c : Char) : Option Int := do
  let shifted ← checked bits (n * 10)
  checked bits (shifted + (c.toNat - '0'.toNat : Nat))

/-- The number that ASCII digits write, if it can be read into a word. -/
def readWord? (bits : Nat) (digits : Text) : Option Int :=
  if !digits.isEmpty && digits.all Char.isDigit then digits.foldlM (readDigit? bits) 0 else none

theorem checked_natCast (bits n : Nat) :
    checked bits n = if n < 2 ^ (bits - 1) then some (n : Int) else none := by
  have hlimit : (2 ^ (bits - 1) : Int) = (2 ^ (bits - 1) : Nat) :=
    (Int.natCast_pow 2 (bits - 1)).symm
  have hrange : (-2 ^ (bits - 1) ≤ (n : Int) ∧ (n : Int) < 2 ^ (bits - 1)) ↔
      n < 2 ^ (bits - 1) := by
    rw [hlimit]
    omega
  simp only [checked, hrange]

theorem readDigit?_natCast (n : Nat) (c : Char) :
    readDigit? bits n c = if n * 10 + (c.toNat - '0'.toNat) < 2 ^ (bits - 1) then
      some ((n * 10 + (c.toNat - '0'.toNat) : Nat) : Int) else none := by
  have hshifted := checked_natCast bits (n * 10)
  have hsum := checked_natCast bits (n * 10 + (c.toNat - '0'.toNat))
  push_cast at hshifted hsum
  rw [readDigit?, hshifted]
  by_cases h : n * 10 < 2 ^ (bits - 1)
  · rw [if_pos h]
    exact_mod_cast hsum
  · have hlarge : ¬ n * 10 + (c.toNat - '0'.toNat) < 2 ^ (bits - 1) := by omega
    rw [if_neg h, if_neg hlarge]
    rfl

theorem le_foldDigits (start : Nat) (digits : Text) : start ≤ Decimal.foldDigits start digits := by
  induction digits generalizing start with
  | nil => exact Nat.le_refl start
  | cons c digits ih =>
    have hrest := ih (start * 10 + (c.toNat - '0'.toNat))
    have hcons : Decimal.foldDigits start (c :: digits) =
        Decimal.foldDigits (start * 10 + (c.toNat - '0'.toNat)) digits := rfl
    omega

/-- The digits that follow are read exactly if the number with all of them is in the range. -/
theorem foldlM_readDigit? (digits : Text) {start : Nat} (h : start < 2 ^ (bits - 1)) :
    digits.foldlM (readDigit? bits) (start : Int) =
      if Decimal.foldDigits start digits < 2 ^ (bits - 1) then
        some (Decimal.foldDigits start digits : Int) else none := by
  induction digits generalizing start with
  | nil => exact (if_pos h).symm
  | cons c digits ih =>
    have hcons : Decimal.foldDigits start (c :: digits) =
        Decimal.foldDigits (start * 10 + (c.toNat - '0'.toNat)) digits := rfl
    rw [List.foldlM_cons, readDigit?_natCast, hcons]
    by_cases hnext : start * 10 + (c.toNat - '0'.toNat) < 2 ^ (bits - 1)
    · rw [if_pos hnext]
      exact ih hnext
    · -- the digits behind one that does not fit make the number larger still
      have hle := le_foldDigits (start * 10 + (c.toNat - '0'.toNat)) digits
      rw [if_neg hnext, if_neg (by omega)]
      rfl

/-- **A number is read into a word exactly if it is in the range of the word**, however many digits
it has. -/
theorem readWord?_eq (bits : Nat) (digits : Text) :
    readWord? bits digits = (Decimal.natBelow? (2 ^ (bits - 1)) digits).map Int.ofNat := by
  rw [readWord?, Decimal.natBelow?, Decimal.nat?]
  split
  · have hread := foldlM_readDigit? digits (Nat.two_pow_pos (bits - 1))
    rw [Option.filter_some]
    simp only [decide_eq_true_eq]
    rw [apply_ite (Option.map Int.ofNat)]
    exact hread
  · rfl

/-! ## Seconds that are counted in words -/

/-- A part that need not be written, as zero, in a word of 64 bits. -/
def optionalWord? : Option Text → Option Int
  | none => some 0
  | some digits => readWord? 64 digits

/-- The seconds of hours, minutes and seconds in words of 64 bits. The seconds of the hours and the
sum of all are checked, the seconds of the minutes are not. -/
def countWords (hours minutes seconds : Int) : Guarded Int :=
  if 60 ≤ minutes || 60 ≤ seconds then failure
  else do
    let whole ← option (checked 64 (hours * 3600))
    let part ← signed 64 ((← signed 64 (minutes * 60)) + seconds)
    option (checked 64 (whole + part))

/-- The seconds of a duration that is written like a clock, in words of 64 bits. -/
def clockWords? (t : Text) (m : Match) : Guarded Int := do
  let hours ← option (readWord? 64 (← option (m.text? t 1)))
  let minutes ← option (readWord? 64 (← option (m.text? t 2)))
  let seconds ← option (optionalWord? (m.text? t 3))
  countWords hours minutes seconds

theorem optionalWord?_eq (part : Option Text) :
    optionalWord? part =
      ((Duration.optionalPart? part).filter (· < 2 ^ (64 - 1))).map Int.ofNat := by
  cases part with
  | none => rfl
  | some digits => exact readWord?_eq 64 digits

/-- **Nothing wraps around**: the seconds are counted as they are without words, unless they do not
fit into one. -/
theorem countWords_natCast (hours minutes seconds : Nat) : countWords hours minutes seconds =
    option (if minutes < 60 && seconds < 60 &&
        3600 * hours + 60 * minutes + seconds < Duration.bound
      then some (Int.ofNat (3600 * hours + 60 * minutes + seconds)) else none) := by
  have hbound : Duration.bound = 2 ^ (64 - 1) := rfl
  have hbelow : (60 ≤ (minutes : Int) || 60 ≤ (seconds : Int)) =
      !(minutes < 60 && seconds < 60) := by
    simp only [Bool.not_and, ← decide_not, Nat.not_lt, Nat.ofNat_le_cast]
  rw [countWords, hbelow]
  cases hparts : (decide (minutes < 60) && decide (seconds < 60)) with
  | false => rfl
  | true =>
    rw [Bool.and_eq_true, decide_eq_true_eq, decide_eq_true_eq] at hparts
    have hminutes : signed 64 ((minutes : Int) * 60) = pure ((minutes : Int) * 60) :=
      signed_eq (by omega)
    have hpart : signed 64 ((minutes : Int) * 60 + seconds) =
        pure ((minutes : Int) * 60 + seconds) := signed_eq (by omega)
    have hwhole := checked_natCast 64 (hours * 3600)
    have htotal := checked_natCast 64 (hours * 3600 + (minutes * 60 + seconds))
    push_cast at hwhole htotal
    have hall : 3600 * hours + 60 * minutes + seconds =
        hours * 3600 + (minutes * 60 + seconds) := by omega
    rw [Bool.not_true, if_neg Bool.false_ne_true, Bool.true_and, hwhole, hall, hbound]
    simp only [decide_eq_true_eq]
    by_cases h : hours * 3600 < 2 ^ (64 - 1)
    · rw [if_pos h, option_some, pure_bind, hminutes, pure_bind, hpart, pure_bind, htotal]
      rfl
    · have hlarge : ¬ hours * 3600 + (minutes * 60 + seconds) < 2 ^ (64 - 1) := fun hlt =>
        h (Nat.lt_of_le_of_lt (Nat.le_add_right ..) hlt)
      rw [if_neg h, if_neg hlarge]
      rfl

/-- To go on after a number that is read into a word it is enough to do so after those in the range
of the word, if there is no result for any other. -/
theorem option_word_bind {o : Option Nat} {f : Int → Guarded Int} {g : Nat → Option Int}
    (hsmall : ∀ n, n < 2 ^ (64 - 1) → f (Int.ofNat n) = option (g n))
    (hlarge : ∀ n, 2 ^ (64 - 1) ≤ n → g n = none) :
    option ((o.filter (· < 2 ^ (64 - 1))).map Int.ofNat) >>= f = option (o.bind g) := by
  cases o with
  | none => rfl
  | some n =>
    rw [Option.filter_some, Option.bind_some]
    simp only [decide_eq_true_eq]
    by_cases h : n < 2 ^ (64 - 1)
    · rw [if_pos h]
      exact hsmall n h
    · rw [if_neg h, hlarge n (Nat.le_of_not_lt h)]
      rfl

theorem clockWords?_eq (t : Text) (m : Match) :
    clockWords? t m = option ((Duration.ofClock? t m).map Int.ofNat) := by
  have hbound : Duration.bound = 2 ^ (64 - 1) := rfl
  have hsixty : ∀ n, 2 ^ (64 - 1) ≤ n → ¬ n < 60 := fun n hn => by omega
  rw [clockWords?, Duration.ofClock?]
  simp only [Option.bind_eq_bind, Option.map_bind, Function.comp_def, readWord?_eq,
    optionalWord?_eq, Decimal.natBelow?]
  refine option_bind_congr fun _ _ => option_word_bind (fun hours _ => ?_) fun hours hhours => ?_
  · refine option_bind_congr fun _ _ =>
      option_word_bind (fun minutes _ => ?_) fun minutes hminutes => ?_
    · refine option_word_bind (fun seconds _ => ?_) fun seconds hseconds => ?_
      · rw [apply_ite (Option.map Int.ofNat)]
        exact countWords_natCast hours minutes seconds
      · simp [hsixty seconds hseconds]
    · simp [hsixty minutes hminutes]
  · have hbelow : ∀ n, ¬ 3600 * hours + n < Duration.bound := fun n hn => by omega
    simp [Nat.add_assoc, hbelow]

/-- The seconds of a written duration; those of a clock are counted in words. -/
def wordSeconds? (t : Text) : Guarded Int := do
  let body := Text.trim t
  match ← attempt (captures Pattern.durationClock body) with
  | some m => clockWords? body m
  | none => return Int.ofNat (← partsSeconds? body)

/-- **Counting in words breaks nothing off**, whatever the text is. -/
theorem wordSeconds?_eq (t : Text) :
    wordSeconds? t = option ((Duration.seconds? t).map Int.ofNat) := by
  rw [wordSeconds?, captures_eq, attempt_option, pure_bind, Duration.seconds?]
  cases Pattern.durationClock.full? (Text.trim t) with
  | some m => exact clockWords?_eq _ m
  | none =>
    simp only [partsSeconds?_eq]
    cases Duration.ofParts? (Text.trim t) <;> rfl

end Guarded

/-! ## The form of a clock -/

namespace Duration

/-- Hours of any number of digits, minutes of two digits, and seconds of two digits that need not be
there. -/
structure ClockForm where
  hours : Text
  minutes : Text
  seconds : Option Text
  hours_ne_nil : hours ≠ []
  isDigit_hours : ∀ c ∈ hours, c.isDigit
  length_minutes : minutes.length = 2
  isDigit_minutes : ∀ c ∈ minutes, c.isDigit
  length_seconds : ∀ s ∈ seconds, s.length = 2
  isDigit_seconds : ∀ s ∈ seconds, ∀ c ∈ s, c.isDigit

namespace ClockForm

variable (d : ClockForm)

/-- The seconds behind a colon, if they are there. -/
def secondsText : Text := d.seconds.elim [] (':' :: ·)

/-- The text of the duration. -/
def text : Text := d.hours ++ ((':' :: d.minutes) ++ d.secondsText)

/-- The number that the digits of a part write. -/
def count (digits : Text) : Nat := Nat.ofDigitChars 10 digits 0

/-- The number of seconds behind the minutes, zero if they are not there. -/
def secondCount : Nat := d.seconds.elim 0 count

/-- The number of seconds in all. -/
def total : Nat := 3600 * count d.hours + 60 * count d.minutes + d.secondCount

theorem nat?_eq {digits : Text} (hne : digits ≠ []) (h : ∀ c ∈ digits, c.isDigit) :
    Decimal.nat? digits = some (count digits) := by
  rw [Decimal.nat?_of_forall hne h, Decimal.natOf_eq, count]

theorem minutes_ne_nil : d.minutes ≠ [] := by
  have hlength := d.length_minutes
  intro hnil
  rw [hnil] at hlength
  cases hlength

theorem seconds_ne_nil : ∀ s ∈ d.seconds, s ≠ [] := by
  rintro s hs rfl
  cases d.length_seconds [] hs

theorem optionalPart?_seconds : optionalPart? d.seconds = some d.secondCount := by
  rw [secondCount]
  cases h : d.seconds with
  | none => rfl
  | some s => exact nat?_eq (d.seconds_ne_nil s h) (d.isDigit_seconds s h)

theorem digit_or_colon_of_mem : ∀ x ∈ d.text, x.isDigit ∨ x = ':' := by
  have hseconds : ∀ x ∈ d.secondsText, x.isDigit ∨ x = ':' := by
    rw [secondsText]
    cases h : d.seconds with
    | none => exact fun x hx => absurd hx List.not_mem_nil
    | some s =>
      exact List.forall_mem_cons.mpr ⟨.inr rfl, fun x hx => .inl (d.isDigit_seconds s h x hx)⟩
  rw [text, List.forall_mem_append, List.forall_mem_append, List.forall_mem_cons]
  exact ⟨fun x hx => .inl (d.isDigit_hours x hx),
    ⟨.inr rfl, fun x hx => .inl (d.isDigit_minutes x hx)⟩, hseconds⟩

/-- There is no white space around a duration in this form. -/
theorem trim_text : Text.trim d.text = d.text := by
  have hwhite : ∀ x ∈ d.text, Text.isWhite x = false := by
    intro x hx
    obtain hdigit | rfl := d.digit_or_colon_of_mem x hx
    · exact Text.isWhite_eq_false_of_isAlphanum (Text.isAlphanum_of_isDigit hdigit)
    · rfl
  exact Text.trim_eq_self (fun x hx => hwhite x (List.mem_of_mem_head? hx)) fun x hx =>
    hwhite x (List.mem_of_getLast? hx)

theorem takes_hours : Takes (many1 digit) d.hours (NoneNext Text.isDigit) noGroups :=
  .many1 d.hours_ne_nil fun x hx => Text.isDigit_of_isDigit (d.isDigit_hours x hx)

theorem takes_digits {digits : Text} (hlength : digits.length = 2) (h : ∀ c ∈ digits, c.isDigit) :
    Takes (times digit 2) digits Anything noGroups :=
  .times hlength fun x hx => Text.isDigit_of_isDigit (h x hx)

/-- Where the digits of the seconds stand, if they are there. -/
def secondGroups (k : Nat) : List (Nat × Span) :=
  d.seconds.elim [] fun s => [(3, ⟨k + 1, k + 1 + s.length⟩)]

theorem takes_secondsText :
    Takes (opt (clockPart (group 3 (times digit 2)))) d.secondsText (· = []) d.secondGroups := by
  rw [secondsText]
  cases h : d.seconds with
  | none =>
    have hnone := Takes.opt_nil (ClockReading.clockPart_starts (group 3 (times digit 2)))
    refine (hnone.mono noneNext_of_eq_nil).congr fun k => ?_
    rw [secondGroups, h]
    rfl
  | some s =>
    have hread := ClockReading.takes_clockPart
      ((takes_digits (d.length_seconds s h) (d.isDigit_seconds s h)).group 3)
    refine hread.opt.of_anything.congr fun k => ?_
    rw [secondGroups, h]
    rfl

/-- What the pattern reads off a duration in this form. -/
theorem takes_text : Takes durationClock.regex d.text (· = []) fun k =>
    d.secondGroups (k + d.hours.length + (':' :: d.minutes).length) ++
      [(2, ⟨k + d.hours.length + 1, k + d.hours.length + 1 + d.minutes.length⟩),
        (1, ⟨k, k + d.hours.length⟩)] := by
  have hminutes := ClockReading.takes_clockPart
    ((takes_digits d.length_minutes d.isDigit_minutes).group 2)
  have hread :=
    (d.takes_hours.group 1).followedBy (hminutes.andThen d.takes_secondsText) (.cons rfl)
  refine hread.congr fun k => ?_
  simp [noGroups]

theorem text?_of_groups {m : Match} {k : Nat} {s₁ s₂ : Span}
    (h : m.groups = d.secondGroups k ++ [(2, s₂), (1, s₁)]) (u : Text) :
    m.text? u 1 = some (s₁.of u) ∧ m.text? u 2 = some (s₂.of u) ∧
      m.text? u 3 = d.seconds.map fun s => Span.of ⟨k + 1, k + 1 + s.length⟩ u := by
  obtain ⟨span, groups⟩ := m
  obtain rfl : groups = _ := h
  rw [secondGroups]
  cases d.seconds <;> exact ⟨rfl, rfl, rfl⟩

/-- The groups of a duration in this form. -/
theorem exists_full?_text : ∃ m, durationClock.full? d.text = some m ∧
    m.text? d.text 1 = some d.hours ∧ m.text? d.text 2 = some d.minutes ∧
    m.text? d.text 3 = d.seconds := by
  obtain ⟨h₁, h₂, h₃⟩ := d.text?_of_groups (m := ⟨_, _⟩) rfl d.text
  refine ⟨_, full?_of_takes d.takes_text rfl, h₁.trans (congrArg some ?_),
    h₂.trans (congrArg some ?_), h₃.trans ?_⟩
  · exact Span.of_eq [] _ _ rfl rfl
  · refine Span.of_eq (d.hours ++ [':']) _ d.secondsText (by simp [text]) ?_
    simp
  · cases h : d.seconds with
    | none => rfl
    | some s =>
      refine congrArg some (Span.of_eq (d.hours ++ (':' :: d.minutes) ++ [':']) _ [] ?_ ?_)
      · simp [text, secondsText, h]
      · simp [Nat.add_assoc]

end ClockForm

/-- **A duration that is written like a clock is exact**: its seconds are found exactly if the
minutes and the seconds are below 60 and the number of all seconds fits into a signed word of 64
bits. Counting in such words comes to the same, so no step leaves their range. -/
theorem seconds?_clockForm (d : ClockForm) :
    seconds? d.text = (if ClockForm.count d.minutes < 60 ∧ d.secondCount < 60 ∧ d.total ≤ 2 ^ 63 - 1
      then some d.total else none) ∧
    Guarded.wordSeconds? d.text = Guarded.option ((seconds? d.text).map Int.ofNat) := by
  refine ⟨?_, Guarded.wordSeconds?_eq d.text⟩
  obtain ⟨m, hm, h₁, h₂, h₃⟩ := d.exists_full?_text
  have hhours := ClockForm.nat?_eq d.hours_ne_nil d.isDigit_hours
  have hminutes := ClockForm.nat?_eq d.minutes_ne_nil d.isDigit_minutes
  rw [seconds?, d.trim_text, hm]
  simp only [ofClock?, Option.bind_eq_bind, h₁, h₂, h₃, Option.bind_some, hhours, hminutes,
    d.optionalPart?_seconds, Bool.and_eq_true, decide_eq_true_eq, and_assoc]
  have hbound : d.total < bound ↔ d.total ≤ 2 ^ 63 - 1 := Nat.lt_iff_le_pred (by decide)
  exact if_congr (and_congr_right' (and_congr_right' hbound)) rfl rfl

example : seconds? "2562047788015215:30:07".toList = some (2 ^ 63 - 1) ∧
    seconds? "2562047788015215:30:08".toList = none := by
  decide +kernel

end Duration

end Snippet
