import Snippet.Clock.Detector
import Snippet.Proofs.Clock.Rendering
import Snippet.Proofs.Pattern.Occurrences

/-!
# Calculations with times are undone

What a calculation is replaced by reads as a time in the style that was written, and that time is
the written one moved by the duration around the clock (`Clock.Calculation.ofText?_result`). The
duration with the opposite sign behind it is again a calculation, and moves the time back
(`Clock.Calculation.exists_undo`).
-/

namespace Snippet

open Regex Pattern

/-! ## The text of a calculation -/

namespace Clock

/-- The time of a calculation as its pattern reads it. -/
def writtenTime : Regex :=
  all [shortNumber, upTo (clockPart (times digit 2)) 2, many white, meridiem meridiemLetter]

/-- The duration of a calculation as its pattern reads it. -/
def writtenDuration : Regex := seq nonwhite (many (one fun c => c != '\n'))

/-- What is left behind a time in front of a sign: white space and the sign. -/
def BeforeSign (w v : Text) : Prop := ∃ sign u, (sign = '+' ∨ sign = '-') ∧ v = w ++ sign :: u

section Pattern

variable {sign : Char} {p : Char → Bool} {v w w₁ w₂ d : Text}

theorem BeforeSign.noneNext (hw : ∀ x ∈ w, p x = false) (hplus : p '+' = false)
    (hminus : p '-' = false) (h : BeforeSign w v) : NoneNext p v := by
  obtain ⟨sign, u, hsign, rfl⟩ := h
  intro x hx
  cases w with
  | nil =>
    obtain rfl : sign = x := by simpa using hx
    rcases hsign with rfl | rfl
    · exact hplus
    · exact hminus
  | cons y w =>
    obtain rfl : y = x := by simpa using hx
    exact hw y (List.mem_cons_self ..)

/-- A mark between the parts of a time is no white space. -/
theorem beq_eq_false_of_isBlank {c : Char} (hc : Text.isWhite c = false) (hw : Text.isBlank w) :
    ∀ x ∈ w, (x == c) = false := by
  intro x hx
  rw [beq_eq_false_iff_ne]
  rintro rfl
  exact Text.not_mem_of_isBlank hw hc hx

/-- The minutes and the seconds. -/
theorem takes_clockParts (r : ClockReading) (t : Time) :
    Takes (upTo (clockPart (times digit 2)) 2)
      ((':' :: Decimal.padded 2 t.minute) ++ r.secondsText t) (NoneNext (· == ':')) noGroups := by
  have hsecond : Takes (seq (clockPart (times digit 2)) empty) (':' :: Decimal.padded 2 t.second)
      Anything noGroups := by
    have hread := (ClockReading.takes_clockPart (ClockReading.takes_padded t.second_lt)).andThen
      Takes.empty
    rwa [List.append_nil] at hread
  have hread := (ClockReading.takes_clockPart (ClockReading.takes_padded t.minute_lt)).andThen
    (r.takes_secondsText t hsecond (.inl (ClockReading.clockPart_starts _)))
  refine hread.opt.congr fun k => ?_
  simp [noGroups]

/-- A rendered time is read together with the white space behind it, unless the mark of the half of
the day is written. -/
theorem exists_takes_time (r : ClockReading) (t : Time) (hw : Text.isBlank w) :
    ∃ w₁ w₂, w = w₁ ++ w₂ ∧ Text.isBlank w₁ ∧ Text.isBlank w₂ ∧
      Takes writtenTime (r.render t ++ w₁) (BeforeSign w₂) noGroups := by
  have hhour := r.takes_hourText t
  have hparts := takes_clockParts r t
  cases htwelve : r.twelveHour with
  | true =>
    have hhalf := r.takes_halfText t htwelve (ClockReading.takes_meridiemLetter t)
    have hread := hhour.followedBy (hparts.seq hhalf fun v _ => ?_) (.cons rfl)
    · refine ⟨[], w, rfl, rfl, hw, ?_⟩
      rw [List.append_nil, r.render_eq, ← List.append_assoc (':' :: _)]
      exact hread.mono fun v hv =>
        hv.noneNext (beq_eq_false_of_isBlank (by decide) hw) (by decide) (by decide)
    · rw [ClockReading.halfText, if_pos htwelve]
      exact (StartsOutside.cons (by decide)).noneNext
  | false =>
    have hnil : r.halfText t = [] := by rw [ClockReading.halfText, htwelve]; rfl
    have hblank : Takes (all [many white, meridiem meridiemLetter]) w (BeforeSign []) noGroups :=
      (ClockReading.takes_blank ClockReading.meridiemLetter_starts hw).mono fun v hv =>
        hv.noneNext (by simp) (by decide) (by decide)
    have hread := hhour.followedBy (hparts.seq hblank fun v hv => ?_) (.cons rfl)
    · refine ⟨w, [], (List.append_nil w).symm, hw, rfl, ?_⟩
      rw [r.render_eq, hnil, List.append_nil, List.append_assoc]
      exact hread
    · obtain ⟨sign, u, hsign, rfl⟩ := hv
      have hbefore : BeforeSign w (w ++ ([] ++ sign :: u)) := ⟨sign, u, hsign, rfl⟩
      exact hbefore.noneNext (beq_eq_false_of_isBlank (by decide) hw) (by decide) (by decide)

theorem takes_duration (h : writtenDuration.Reads d) :
    Takes writtenDuration d (· = []) noGroups := by
  obtain ⟨a, b, rfl, ha, hb⟩ := reads_seq_iff.mp h
  obtain ⟨x, rfl, hx⟩ := reads_one_iff.mp ha
  have hrest : Takes (many (one fun c => c != '\n')) b _ noGroups :=
    .many (reads_star_one_iff.mp hb)
  exact ((Takes.one hx).andThen hrest).mono noneNext_of_eq_nil

/-- What is read behind a time. -/
theorem takes_behind {w : Text} (hsign : sign = '+' ∨ sign = '-') (hw : Text.isBlank w)
    (h₂ : Text.isBlank w₂) (hd : writtenDuration.Reads d) :
    Takes (all [many white, group 2 (charIn ['+', '-']), many white, group 3 writtenDuration])
      (w ++ ([sign] ++ (w₂ ++ d))) (· = []) fun k =>
        [(3, ⟨k + w.length + 1 + w₂.length, k + w.length + 1 + w₂.length + d.length⟩),
          (2, ⟨k + w.length, k + w.length + [sign].length⟩)] := by
  have hmark : ['+', '-'].contains sign ∧ Text.isWhite sign = false := by
    rcases hsign with rfl | rfl <;> decide
  have hfirst : StartsOutside Text.isWhite d := by
    obtain ⟨a, b, rfl, ha, -⟩ := reads_seq_iff.mp hd
    obtain ⟨x, rfl, hx⟩ := reads_one_iff.mp ha
    exact .cons (by simpa using hx)
  have hgroup : Takes (charIn ['+', '-']) [sign] Anything noGroups := .one hmark.1
  have hrest := (Takes.white h₂).followedBy ((takes_duration hd).group 3) hfirst
  exact (Takes.white hw).followedBy ((hgroup.group 2).andThen hrest) (.cons hmark.2)

/-- The parts of a calculation with a rendered time. -/
theorem exists_parts? (r : ClockReading) (t : Time) (hsign : sign = '+' ∨ sign = '-')
    (h₁ : Text.isBlank w₁) (h₂ : Text.isBlank w₂) (hd : writtenDuration.Reads d) :
    ∃ w, Text.isBlank w ∧ parts? (r.render t ++ (w₁ ++ sign :: (w₂ ++ d))) =
      some (r.render t ++ w, [sign], d) := by
  obtain ⟨w, w', rfl, hw, hw', htime⟩ := exists_takes_time r t h₁
  have hread := (htime.group 1).seq (takes_behind hsign hw' h₂ hd) fun v _ =>
    ⟨sign, w₂ ++ d ++ v, hsign, by simp⟩
  obtain ⟨s, hs⟩ : ∃ s, s = r.render t ++ w ++ (w' ++ ([sign] ++ (w₂ ++ d))) := ⟨_, rfl⟩
  rw [← hs] at hread
  obtain ⟨m, hm, htime, hgroup, hduration⟩ : ∃ m, timeCalc.full? s = some m ∧
      m.text? s 1 = some (r.render t ++ w) ∧ m.text? s 2 = some [sign] ∧ m.text? s 3 = some d := by
    refine ⟨_, full?_of_takes (p := timeCalc) hread rfl, text?_of_groups rfl ?_ ?_ ?_⟩
    · exact Span.of_eq [] _ _ hs rfl
    · exact Span.of_eq (r.render t ++ w ++ w') _ (w₂ ++ d) (by simp [hs]) (by simp [Nat.add_assoc])
    · refine Span.of_eq (r.render t ++ w ++ (w' ++ ([sign] ++ w₂))) _ [] (by simp [hs]) ?_
      simp only [List.length_append, List.length_singleton]
      omega
  have htext : r.render t ++ (w ++ w' ++ sign :: (w₂ ++ d)) = s := by simp [hs]
  refine ⟨w, hw, ?_⟩
  rw [htext, parts?, hm]
  simp [htime, hgroup, hduration]

/-- A calculation has a sign, and a duration without line ends. -/
theorem exists_sign_of_parts? {t time sign duration : Text}
    (h : parts? t = some (time, sign, duration)) :
    (∃ c, sign = [c] ∧ (c = '+' ∨ c = '-')) ∧ writtenDuration.Reads duration := by
  simp only [parts?, Option.bind_eq_bind, Option.bind_eq_some_iff, Option.pure_def,
    Option.some.injEq, Prod.mk.injEq] at h
  obtain ⟨m, hm, _, -, _, hsign, _, hduration, -, rfl, rfl⟩ := h
  have hbodies : timeCalc.regex.bodies =
      [(1, Clock.writtenTime), (2, charIn ['+', '-']), (3, Clock.writtenDuration)] := rfl
  constructor
  · obtain ⟨body, hbody, hread, -⟩ := reads_group_of_full? hm (by decide) hsign
    rw [hbodies] at hbody
    obtain rfl : body = charIn ['+', '-'] := by simpa using hbody
    obtain ⟨c, rfl, hc⟩ := reads_one_iff.mp hread
    exact ⟨c, rfl, by simpa using hc⟩
  · obtain ⟨body, hbody, hread, -⟩ := reads_group_of_full? hm (by decide) hduration
    rw [hbodies] at hbody
    obtain rfl : body = Clock.writtenDuration := by simpa using hbody
    exact hread

end Pattern

/-! ## Calculations -/

/-- A calculation as it is read from a text. -/
structure Calculation (t : Text) where
  time : Text
  sign : Char
  duration : Text
  reading : ClockReading
  /-- The duration in seconds. -/
  seconds : Nat
  parts?_eq : parts? (Text.trim t) = some (time, [sign], duration)
  ofText?_time : ClockReading.ofText? time = some reading
  seconds?_duration : Duration.seconds? duration = some seconds
  seconds_le : seconds ≤ longestShift

namespace Calculation

variable {t : Text} (c : Calculation t)

/-- The seconds that the time is moved by. -/
def shift : Int := if c.sign = '-' then -(c.seconds : Int) else c.seconds

/-- The other sign. -/
def oppositeSign : Char := if c.sign = '-' then '+' else '-'

/-- What the calculation is replaced by. -/
def result : Text := c.reading.render (c.reading.time.shift c.shift)

theorem reads_duration : writtenDuration.Reads c.duration := (exists_sign_of_parts? c.parts?_eq).2

theorem sign_cases : c.sign = '+' ∨ c.sign = '-' := by
  obtain ⟨⟨sign, hsign, hcases⟩, -⟩ := exists_sign_of_parts? c.parts?_eq
  rwa [(List.cons.inj hsign).1]

theorem answer?_eq : answer? t = some c.result := by
  have hlong : ¬ longestShift < c.seconds := Nat.not_lt.mpr c.seconds_le
  simp [answer?, c.parts?_eq, c.ofText?_time, c.seconds?_duration, hlong, result, shift]

/-- What is shown reads as the time that was moved, as far as the style shows it. -/
theorem ofText?_result : ClockReading.ofText? c.result =
    some ⟨c.reading.shown (c.reading.time.shift c.shift), c.reading.twelveHour,
      c.reading.withSeconds⟩ :=
  c.reading.ofText?_render _

end Calculation

theorem exists_calculation {t out : Text} (h : answer? t = some out) :
    ∃ c : Calculation t, c.result = out := by
  simp only [answer?, Option.bind_eq_bind, Option.bind_eq_some_iff] at h
  obtain ⟨⟨time, sign, duration⟩, hparts, reading, hreading, seconds, hseconds, h⟩ := h
  obtain ⟨⟨sign, rfl, -⟩, -⟩ := exists_sign_of_parts? hparts
  split at h
  · cases h
  · rename_i hle
    refine ⟨⟨time, sign, duration, reading, seconds, hparts, hreading, hseconds, by omega⟩, ?_⟩
    have hout := Option.some.inj h
    simpa [Calculation.result, Calculation.shift] using hout

/-! ## The way back -/

/-- A duration keeps its first character when white space at its end is left out. -/
theorem reads_trimEnd {d : Text} (h : writtenDuration.Reads d) :
    ¬ Text.isBlank d ∧ writtenDuration.Reads (Text.trimEnd d) := by
  obtain ⟨a, b, rfl, ha, hb⟩ := reads_seq_iff.mp h
  obtain ⟨x, rfl, hx⟩ := reads_one_iff.mp ha
  have hblank : ¬ Text.isBlank ([x] ++ b) := fun hblank => by
    rw [Text.isBlank, List.singleton_append, List.all_cons, Bool.and_eq_true] at hblank
    simp [hblank.1] at hx
  refine ⟨hblank, ?_⟩
  have hsplit := Text.trimEnd_append_trailingWhite ([x] ++ b)
  obtain ⟨y, e, htrim⟩ := List.exists_cons_of_ne_nil (l := Text.trimEnd ([x] ++ b)) fun hnil =>
    hblank (Text.isBlank_trimEnd.mp (by rw [hnil]; rfl))
  rw [htrim] at hsplit ⊢
  obtain ⟨rfl, hrest⟩ := List.cons.inj hsplit
  have hpart : e <+: b := ⟨_, hrest⟩
  exact .seq (u := [y]) (.one hx) (reads_star_one_iff.mpr fun z hz =>
    reads_star_one_iff.mp hb z (hpart.mem hz))

namespace Calculation

variable {t : Text} (c : Calculation t)

/-- The result with white space and a sign behind it begins with no white space. -/
theorem isWhite_eq_false_of_head?_result {u : Text} :
    ∀ x ∈ (c.result ++ u).head?, Text.isWhite x = false := by
  intro x hx
  have hresult : c.result ≠ [] := by
    rw [result, ClockReading.render_eq]
    simp
  rw [List.head?_append_of_ne_nil _ hresult, result, ← ClockReading.trim_render] at hx
  exact Text.isWhite_eq_false_of_head?_trim hx

/-- **A calculation with the result and the opposite sign** has the same duration, and moves the
time that is shown the other way. -/
theorem exists_undo {w₁ w₂ : Text} (h₁ : Text.isBlank w₁) (h₂ : Text.isBlank w₂) :
    ∃ c' : Calculation (c.result ++ (w₁ ++ c.oppositeSign :: (w₂ ++ c.duration))),
      c'.shift = -c.shift ∧ c'.reading = ⟨c.reading.shown (c.reading.time.shift c.shift),
        c.reading.twelveHour, c.reading.withSeconds⟩ := by
  have hopposite : c.oppositeSign = '+' ∨ c.oppositeSign = '-' := by
    rw [oppositeSign]
    split
    · exact .inl rfl
    · exact .inr rfl
  obtain ⟨hblank, hreads⟩ := reads_trimEnd c.reads_duration
  obtain ⟨w, hw, hparts⟩ := exists_parts? c.reading (c.reading.time.shift c.shift) hopposite h₁ h₂
    hreads
  have htrim : Text.trim (c.result ++ (w₁ ++ c.oppositeSign :: (w₂ ++ c.duration))) =
      c.result ++ (w₁ ++ c.oppositeSign :: (w₂ ++ Text.trimEnd c.duration)) := by
    have hsplit : ∀ d, c.result ++ (w₁ ++ c.oppositeSign :: (w₂ ++ d)) =
        c.result ++ (w₁ ++ c.oppositeSign :: w₂) ++ d := fun d => by simp
    rw [hsplit, hsplit, Text.trim_append_of_not_isBlank c.isWhite_eq_false_of_head?_result
      (by simp) hblank]
  refine ⟨⟨c.result ++ w, c.oppositeSign, Text.trimEnd c.duration, _, c.seconds, ?_, ?_, ?_,
    c.seconds_le⟩, ?_, rfl⟩
  · rw [htrim]
    exact hparts
  · rw [ClockReading.ofText?_append_blank hw, c.ofText?_result]
  · rw [← c.seconds?_duration, Duration.seconds?, Text.trim_trimEnd, Duration.seconds?]
  · change (if c.oppositeSign = '-' then -(c.seconds : Int) else c.seconds) = -c.shift
    rw [shift, oppositeSign]
    rcases c.sign_cases with hsign | hsign
    · simp [hsign]
    · simp [hsign]

/-- The second of the day that the time is moved to. -/
def target : Int := (c.reading.time.seconds + c.shift) % (daySeconds : Int)

/-- The time that is shown is the target, or its minute where no seconds are shown. -/
theorem seconds_shown : ((c.reading.shown (c.reading.time.shift c.shift)).seconds : Int) =
    if c.reading.withSeconds then c.target else c.target - c.target % 60 := by
  have hshift : ((c.reading.time.shift c.shift).seconds : Int) = c.target :=
    c.reading.time.seconds_shift c.shift
  rw [ClockReading.shown]
  split
  · exact hshift
  · have hminute : (c.reading.time.shift c.shift).toMinute.seconds =
        (c.reading.time.shift c.shift).seconds - (c.reading.time.shift c.shift).seconds % 60 := rfl
    rw [← hshift, hminute]
    omega

/-- Nothing is lost where seconds are shown or the duration is of whole minutes. -/
theorem shown_shift (h : c.reading.withSeconds ∨ 60 ∣ c.seconds) :
    c.reading.shown (c.reading.time.shift c.shift) = c.reading.time.shift c.shift := by
  rw [ClockReading.shown]
  split
  · rfl
  · rename_i hseconds
    rw [Bool.not_eq_true] at hseconds
    have hminutes : c.seconds % 60 = 0 := by
      refine Nat.mod_eq_zero_of_dvd (h.resolve_left ?_)
      rw [hseconds]
      exact Bool.false_ne_true
    have hwhole := ClockReading.seconds_mod_of_ofText? c.ofText?_time hseconds
    refine Time.toMinute_eq _ (Time.seconds_shift_mod _ hwhole ?_)
    rw [shift]
    split <;> omega

end Calculation

variable {ctx : Context} {t out : Text}

theorem detect_eq_iff : detector.detect ctx t = .ok (.text out) ↔ answer? t = some out := by
  cases hanswer : answer? t with
  | none => simp [detector, hanswer, Outcome.ofOption, pure, Except.pure]
  | some v => simp [detector, hanswer, Outcome.ofOption, pure, Except.pure]

/-- **A calculation is exact around the clock, and is undone by the opposite sign.** What is shown
reads as a time in the style that was written. It is the written time moved by the duration modulo a
day, or the minute of that time where no seconds are shown. Where nothing is lost by this, the
result with the opposite sign and the duration shows the written time. -/
theorem detect_undone (h : detector.detect ctx t = .ok (.text out)) :
    ∃ c : Calculation t, ∃ r, ClockReading.ofText? out = some r ∧
      r.twelveHour = c.reading.twelveHour ∧ r.withSeconds = c.reading.withSeconds ∧
      (r.time.seconds : Int) =
        (if c.reading.withSeconds then c.target else c.target - c.target % 60) ∧
      ((c.reading.withSeconds ∨ 60 ∣ c.seconds) → ∀ ctx' w₁ w₂, Text.isBlank w₁ → Text.isBlank w₂ →
        detector.detect ctx' (out ++ (w₁ ++ c.oppositeSign :: (w₂ ++ c.duration))) =
          .ok (.text (c.reading.render c.reading.time))) := by
  obtain ⟨c, rfl⟩ := exists_calculation (detect_eq_iff.mp h)
  refine ⟨c, _, c.ofText?_result, rfl, rfl, c.seconds_shown, fun hexact ctx' w₁ w₂ h₁ h₂ => ?_⟩
  obtain ⟨c', hshift, hreading⟩ := c.exists_undo h₁ h₂
  have hback : c'.result = c.reading.render c.reading.time := by
    rw [Calculation.result, hshift, hreading, c.shown_shift hexact]
    dsimp only
    rw [Time.shift_neg]
    rfl
  rw [detect_eq_iff, c'.answer?_eq, hback]

/-- From half past eleven in the evening to the next day, and back. -/
theorem detect_past_midnight :
    let ctx : Context := ⟨{}, .standard, ⟨2026, 10, 19, by decide⟩, .whole, []⟩
    detector.detect ctx "11:30 p.m. + 1:45".toList = .ok (.text "1:15 AM".toList) ∧
      (ClockReading.ofText? "1:15 AM".toList).map (·.time.seconds) = some 4500 ∧
      detector.detect ctx "1:15 AM - 1:45".toList = .ok (.text "11:30 PM".toList) := by
  intro ctx
  have hdetect : detector.detect ctx "11:30 p.m. + 1:45".toList = .ok (.text "1:15 AM".toList) :=
    detect_eq_iff.mpr (by decide +kernel)
  have hparts : parts? (Text.trim "11:30 p.m. + 1:45".toList) =
      some ("11:30 p.m.".toList, ['+'], "1:45".toList) := by decide +kernel
  have htime : ClockReading.ofText? "11:30 p.m.".toList =
      some ⟨⟨84600, by decide⟩, true, false⟩ := by decide +kernel
  have hduration : Duration.seconds? "1:45".toList = some 6300 := by decide +kernel
  obtain ⟨c, r, hr, -, -, htarget, hback⟩ := detect_undone hdetect
  obtain ⟨htime', hsign, hduration'⟩ : "11:30 p.m.".toList = c.time ∧ '+' = c.sign ∧
      "1:45".toList = c.duration := by
    have heq := c.parts?_eq
    rw [hparts] at heq
    simpa only [Option.some.injEq, Prod.mk.injEq, List.cons.injEq, and_true] using heq
  have hreading : ⟨⟨84600, by decide⟩, true, false⟩ = c.reading := by
    have heq := c.ofText?_time
    rwa [← htime', htime, Option.some.injEq] at heq
  have hseconds : 6300 = c.seconds := by
    have heq := c.seconds?_duration
    rwa [← hduration', hduration, Option.some.injEq] at heq
  refine ⟨hdetect, ?_, ?_⟩
  · rw [Calculation.target, Calculation.shift, ← hreading, ← hsign, ← hseconds] at htarget
    rw [hr, Option.map_some, Option.some.injEq, ← Int.natCast_inj, htarget]
    decide
  · have hlater := hback (.inr ⟨105, hseconds.symm⟩) ctx [' '] [' '] rfl rfl
    rw [Calculation.oppositeSign, ← hsign, ← hduration', ← hreading] at hlater
    have hrender : ClockReading.render ⟨⟨84600, by decide⟩, true, false⟩ ⟨84600, by decide⟩ =
        "11:30 PM".toList := by decide +kernel
    rw [hrender] at hlater
    exact hlater

end Clock

end Snippet
