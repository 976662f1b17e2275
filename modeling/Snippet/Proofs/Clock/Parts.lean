import Snippet.Clock.Duration
import Snippet.Proofs.Arithmetic.Percentages

/-!
# The parts of a duration

A part of a duration is a numeral with the name of a unit of time in any case, and perhaps white
space between them (`Duration.IsPart`). A text whose seconds can be told is one
(`Duration.isPart_of_partSeconds?`). Where a part stands, the search takes all of it, unless what
follows makes the name of the unit the beginning of a longer one (`Duration.IsPart.takes`).
-/

namespace Snippet

open Regex Pattern

variable {u v name number : Text}

/-! ## Numbers that are numerals -/

namespace Arithmetic

/-- A text that starts with neither a sign nor a letter is read without them. -/
theorem float?_cons {c : Char} (hsign : c ≠ '-' ∧ c ≠ '+') (hc : c.isAlpha = false) (t : Text) :
    Decimal.float? (c :: t) = (Decimal.unsigned? false (c :: t)).map Decimal.Numeral.toFloat := by
  have hsplit : Decimal.splitSign (c :: t) = (false, c :: t) := by
    unfold Decimal.splitSign
    split <;> simp_all
  have hword (d : Char) (w : Text) (hd : d.isLower) : Text.lower (c :: t) ≠ d :: w := by
    intro heq
    have hlower : c.toLower = d := (List.cons.inj heq).1
    rw [Text.isAlpha_of_toLower (hlower ▸ hd)] at hc
    cases hc
  have hi (w : Text) : Text.lower (c :: t) ≠ 'i' :: w := hword 'i' w rfl
  have hn (w : Text) : Text.lower (c :: t) ≠ 'n' :: w := hword 'n' w rfl
  simp only [Decimal.float?, hsplit, String.reduceToList, hi, hn, decide_false, Bool.or_self,
    if_false, Bool.false_eq_true]

/-- An exponent that can be read starts with its letter. -/
theorem eq_nil_of_exponent?_of_head {r : Text} {e : Int} (hr : ∀ c ∈ r.head?, c.isAlpha = false)
    (h : Decimal.exponent? r = some e) : r = [] := by
  cases r with
  | nil => rfl
  | cons c r =>
    have hletter : (decide (c = 'e') || decide (c = 'E')) = false := by
      rw [Bool.or_eq_false_iff, decide_eq_false_iff_not, decide_eq_false_iff_not]
      constructor <;> rintro rfl <;> exact absurd (hr _ rfl) (by decide)
    simp [Decimal.exponent?, hletter] at h

theorem isClean_of_isDigit {c : Char} (h : c.isDigit) : isClean c := by
  simp [isClean, h]

theorem isAlpha_eq_false_of_isNumberChar {c : Char} (h : isNumberChar c) : c.isAlpha = false := by
  rw [← Bool.not_eq_true]
  intro hc
  rw [isNumberChar, Text.isDigit_eq_false_of_isAlpha hc, Bool.false_or, Bool.or_eq_true,
    beq_iff_eq, beq_iff_eq] at h
  rcases h with rfl | rfl <;> exact absurd hc (by decide)

/-- A decimal number that can be converted is a numeral: its digits are those of ASCII. -/
theorem exists_numeral_of_float? {x : Float} (h : decimalNumber.Reads number)
    (hx : Decimal.float? number = some x) : ∃ n : Numeral, n.text = number := by
  refine exists_numeral_of_reads h ?_
  have hletter : ∀ c ∈ number, c.isAlpha = false := fun c hc =>
    isAlpha_eq_false_of_isNumberChar (h.forall_mem decimalNumber_over c hc)
  have hwhole : ∀ c ∈ number.takeWhile Char.isDigit, isClean c := fun c hc =>
    isClean_of_isDigit (List.mem_takeWhile_imp hc)
  obtain ⟨c, t, hnumber, hc⟩ := h.exists_cons decimalNumber_starts
  have hsign : c ≠ '-' ∧ c ≠ '+' := by
    constructor <;> rintro rfl <;> exact absurd hc (by decide)
  rw [hnumber, float?_cons hsign (hletter c (by simp [hnumber])), ← hnumber,
    Option.map_eq_some_iff] at hx
  obtain ⟨m, hm, -⟩ := hx
  have hsplit : number.takeWhile Char.isDigit ++ number.dropWhile Char.isDigit = number :=
    List.takeWhile_append_dropWhile
  have hrest : ∀ d ∈ number.dropWhile Char.isDigit, d.isAlpha = false := fun d hd =>
    hletter d ((List.dropWhile_sublist _).mem hd)
  rw [← hsplit, List.forall_mem_append]
  refine ⟨hwhole, ?_⟩
  cases hr : number.dropWhile Char.isDigit with
  | nil => simp
  | cons d r =>
    rw [hr, List.forall_mem_cons] at hrest
    by_cases hd : d = '.'
    · -- behind the digits after the point there can be nothing but an exponent
      subst hd
      have hnil : r.dropWhile Char.isDigit = [] := by
        simp only [Decimal.unsigned?, hr] at hm
        split at hm
        · cases hm
        · obtain ⟨e, he, -⟩ := Option.map_eq_some_iff.mp hm
          refine eq_nil_of_exponent?_of_head (fun b hb => ?_) he
          exact hrest.2 b ((List.dropWhile_sublist _).mem (List.mem_of_mem_head? hb))
      rw [List.forall_mem_cons]
      exact ⟨by decide, fun b hb => isClean_of_isDigit (List.dropWhile_eq_nil_iff.mp hnil b hb)⟩
    · simp [Decimal.unsigned?, hr, hd] at hm
      obtain ⟨-, e, he, -⟩ := hm
      cases eq_nil_of_exponent?_of_head (by simpa using hrest.1) he

end Arithmetic

/-- White space and letters are not part of a decimal number. -/
theorem isDecimalChar_eq_false {c : Char} (h : Text.isWhite c ∨ Text.isForm c) :
    isDecimalChar c = false := by
  rw [← Bool.not_eq_true, isDecimalChar, Bool.or_eq_true, beq_iff_eq]
  rintro (hdigit | rfl)
  · simp [Text.isWhite_eq_false_of_isDigit hdigit, Text.isForm_eq_false_of_isDigit hdigit] at h
  · exact absurd h (by decide)

/-! ## Parts -/

namespace Duration

/-- The names of the units of time, a longer name in front of its beginnings. -/
def unitNames : List String :=
  ["days", "day", "d", "hours", "hour", "hrs", "hr", "h", "minutes", "minute", "mins", "min", "m",
    "seconds", "second", "secs", "sec", "s"]

theorem isSome_unitSeconds?_iff :
    (unitSeconds? name).isSome ↔ ∃ w ∈ unitNames, Text.lower name = w.toList := by
  have hmem : (∃ w ∈ unitNames, Text.lower name = w.toList) ↔
      String.ofList (Text.lower name) ∈ unitNames := by
    constructor
    · rintro ⟨w, hw, heq⟩
      rwa [heq, String.ofList_toList]
    · exact fun h => ⟨_, h, String.toList_ofList.symm⟩
  have hperm : unitNames.Perm (["d", "day", "days"] ++ (["h", "hr", "hrs", "hour", "hours"] ++
      (["m", "min", "mins", "minute", "minutes"] ++
        ["s", "sec", "secs", "second", "seconds"]))) := by
    decide
  rw [hmem, hperm.mem_iff, unitSeconds?]
  simp only [List.mem_append, List.contains_iff_mem]
  split_ifs with hday hhour hminute hsecond
  · exact iff_of_true rfl (.inl hday)
  · exact iff_of_true rfl (.inr (.inl hhour))
  · exact iff_of_true rfl (.inr (.inr (.inl hminute)))
  · exact iff_of_true rfl (.inr (.inr (.inr hsecond)))
  · simp only [hday, hhour, hminute, hsecond, or_self, Option.isSome_none, Bool.false_eq_true]

theorem forall_isLower_unitNames : ∀ w ∈ unitNames, w.toList.all Char.isLower := by decide

/-- A name in small letters is the beginning of another one only if one of two things follows in the
other. -/
theorem rest_of_prefix : ∀ w ∈ unitNames, ∀ w' ∈ unitNames, w.toList <+: w'.toList →
    w'.toList <+: w.toList ∨ (w'.toList.drop w.toList.length).head? ≠ some 'a' ∨
      "ay".toList <+: w'.toList.drop w.toList.length := by
  decide

/-- A part of a duration: a number, perhaps white space, and a unit of time. -/
def IsPart (u : Text) : Prop :=
  ∃ (n : Arithmetic.Numeral) (blank name : Text), u = n.text ++ (blank ++ name) ∧
    Text.isBlank blank ∧ (unitSeconds? name).isSome

/-- What follows the name of a unit does not make it a longer one. -/
def EndsUnit (v : Text) : Prop :=
  NoneNext (fun c => Text.isForm c && Text.foldCase c != 'a') v ∧
    ¬ "ay".toList <+: v.map Text.foldCase

theorem endsUnit_nil : EndsUnit [] := ⟨nofun, by simp⟩

/-- A name takes its forms where it ends. -/
theorem takes_unitName {w : String} (hw : w ∈ unitNames) (hu : u.map Text.foldCase = w.toList) :
    Takes (words unitNames) u EndsUnit noGroups := by
  have hdiffer : unitNames.Pairwise fun w' w => ¬ w'.toList <+: w.toList := by decide
  refine takes_words forall_isLower_unitNames hdiffer hw hu fun v hv w' hw' hpart => ?_
  rcases Nat.le_total w'.toList.length w.toList.length with hle | hle
  · exact List.prefix_of_prefix_length_le hpart (List.prefix_append ..) hle
  -- a longer name goes on with a beginning of what follows
  have hbegins := List.prefix_of_prefix_length_le (List.prefix_append ..) hpart hle
  have hrest := rest_of_prefix w hw w' hw' hbegins
  obtain ⟨z, hz⟩ := hbegins
  rw [← hz, List.prefix_append_right_inj] at hpart
  rw [← hz, List.drop_left] at hrest
  rw [← hz]
  rcases hrest with h | h | h
  · exact h
  · cases z with
    | nil => simp
    | cons x z =>
      obtain ⟨s, hs⟩ := hpart
      obtain ⟨y, v, rfl, hy, -⟩ := List.map_eq_cons_iff.mp hs.symm
      have hx : x.isLower := List.all_eq_true.mp (forall_isLower_unitNames w' hw') x (by simp [← hz])
      have hclass := hv.1 y rfl
      simp only [Text.isForm, hy, hx, Bool.true_and, bne_eq_false_iff_eq] at hclass
      exact absurd (congrArg some hclass) h
  · exact absurd (h.trans hpart) hv.2

/-- A part where it ends, with its groups. -/
theorem takes_durationPart {blank : Text} (hn : decimalNumber.Reads number)
    (hblank : Text.isBlank blank) {w : String} (hw : w ∈ unitNames)
    (hu : name.map Text.foldCase = w.toList) :
    durationPart.regex.Takes (number ++ (blank ++ name)) EndsUnit fun k =>
      [(2, ⟨k + number.length + blank.length, k + number.length + blank.length + name.length⟩),
        (1, ⟨k, k + number.length⟩)] := by
  have hne : w.toList ≠ [] := by
    have hall : ∀ w ∈ unitNames, w.toList ≠ [] := by decide
    exact hall w hw
  -- the name starts with a letter, where neither white space nor the number goes on
  obtain ⟨x, rest, rfl⟩ : ∃ x rest, name = x :: rest :=
    List.exists_cons_of_ne_nil fun hnil => hne (by rw [← hu, hnil]; rfl)
  have hx : Text.isForm x := by
    have hlower := List.all_eq_true.mp (forall_isLower_unitNames w hw)
    rw [← hu] at hlower
    exact hlower _ (List.mem_cons_self ..)
  have hname : StartsOutside Text.isWhite (x :: rest) := .cons (Text.isWhite_eq_false_of_isForm hx)
  have hnumber : StartsOutside isDecimalChar (blank ++ x :: rest) := by
    cases blank with
    | nil => exact .cons (isDecimalChar_eq_false (.inr hx))
    | cons b blank =>
      exact .cons (isDecimalChar_eq_false (.inl (Text.isWhite_of_isBlank hblank (by simp))))
  exact (takes_decimalNumber hn).group 1 |>.followedBy
    ((Takes.white hblank).followedBy ((takes_unitName hw hu).group 2) hname) hnumber

/-- The groups of a part are its number and its name. -/
theorem exists_full?_durationPart {blank : Text} (hn : decimalNumber.Reads number)
    (hblank : Text.isBlank blank) {w : String} (hw : w ∈ unitNames)
    (hu : name.map Text.foldCase = w.toList) :
    ∃ m, durationPart.full? (number ++ (blank ++ name)) = some m ∧
      m.text? (number ++ (blank ++ name)) 1 = some number ∧
      m.text? (number ++ (blank ++ name)) 2 = some name := by
  refine ⟨_, full?_of_takes (takes_durationPart hn hblank hw hu) endsUnit_nil,
    text?_of_pair rfl ?_ ?_⟩
  · exact Span.of_eq [] number (blank ++ name) rfl (Nat.zero_add 0)
  · exact Span.of_eq (number ++ blank) name [] (by simp) (by simp)

/-- The name of a unit in any case is a form of one of the names. -/
theorem exists_unitName (h : (unitSeconds? name).isSome) :
    ∃ w ∈ unitNames, name.map Text.foldCase = w.toList := by
  obtain ⟨w, hw, hlower⟩ := isSome_unitSeconds?_iff.mp h
  exact ⟨w, hw, Text.map_foldCase_eq_of_lower (forall_isLower_unitNames w hw) hlower⟩

/-- **A part where it ends is taken as a whole.** -/
theorem IsPart.exists_takes (h : IsPart u) : ∃ gs, durationPart.regex.Takes u EndsUnit gs := by
  obtain ⟨n, blank, name, rfl, hblank, hname⟩ := h
  obtain ⟨w, hw, hfold⟩ := exists_unitName hname
  exact ⟨_, takes_durationPart n.reads hblank hw hfold⟩

/-- **A text whose seconds can be told is a part.** -/
theorem isPart_of_partSeconds? {x : Float} (h : partSeconds? u = some x) : IsPart u := by
  simp only [partSeconds?, Option.bind_eq_bind, Option.bind_eq_some_iff] at h
  obtain ⟨m, hm, number', hnumber, y, hy, name', hname, z, hz, -⟩ := h
  have hread : durationPart.regex.Reads u := (occurrence_of_full? hm).reads
  obtain ⟨number, rest, rfl, hn, hrest⟩ := reads_seq_iff.mp hread
  obtain ⟨blank, name, rfl, hblank, hunit⟩ := reads_seq_iff.mp hrest
  replace hn : decimalNumber.Reads number := reads_group_iff.mp hn
  replace hblank : Text.isBlank blank := List.all_eq_true.mpr (reads_star_one_iff.mp hblank)
  replace hunit : (words unitNames).Reads name := reads_group_iff.mp hunit
  obtain ⟨w, hw, hfold⟩ := (reads_words_iff forall_isLower_unitNames).mp hunit
  obtain ⟨m', hm', hfirst, hsecond⟩ := exists_full?_durationPart hn hblank hw hfold
  obtain rfl := Option.some.inj (hm.symm.trans hm')
  obtain rfl := Option.some.inj (hfirst.symm.trans hnumber)
  obtain rfl := Option.some.inj (hsecond.symm.trans hname)
  obtain ⟨n, rfl⟩ := Arithmetic.exists_numeral_of_float? hn hy
  exact ⟨n, blank, name, rfl, hblank, Option.isSome_of_eq_some hz⟩

end Duration

end Snippet
