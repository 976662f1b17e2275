import Snippet.Proofs.Pattern.Lazy
import Snippet.Proofs.Unit.UnitName
import Snippet.Proofs.Unit.Value

/-!
# Conversions are split as they are written

A conversion is a value, the name of a unit, a connective and the name of another unit
(`Unit.Written`). The first name is read lazily, and a connective can be the name of a unit as well,
but no second word of a name is a connective (`IsUnitName.not_connective`). So the pattern reads the
first name as a whole (`Unit.Written.parts?_text`), and the value is converted between the units
that are named (`Unit.Written.detect_text`).
-/

namespace Snippet

open Regex Pattern

/-! ## Categories -/

namespace Measure

/-- Units of one category, or scales of temperature. -/
def SameCategory : Measure → Measure → Prop
  | .scaled a _, .scaled b _ => a = b
  | .temperature _, .temperature _ => True
  | _, _ => False

theorem isSome_convert?_iff {x : Float} {m n : Measure} :
    (convert? x m n).isSome ↔ m.SameCategory n := by
  cases m with
  | scaled a _ =>
    cases n with
    | scaled b _ =>
      rw [convert?, SameCategory]
      split <;> simp [*]
    | temperature _ => simp [convert?, SameCategory]
  | temperature _ =>
    cases n with
    | scaled _ _ => simp [convert?, SameCategory]
    | temperature _ => simp [convert?, SameCategory]

/-- A name begins with a character that names may begin with. -/
theorem lead_of_mem_names : ∀ k ∈ names, k.head?.any isUnitLead := by
  decide +kernel

end Measure

namespace Unit

/-- The words that join the two units. -/
def connectives : List String := ["to", "into", "in", "as"]

/-- Behind a blank in a name there is no connective. -/
theorem not_connective_of_mem_names :
    ∀ k ∈ Measure.names, ∀ s ∈ k.tails, ∀ w ∈ connectives, s ≠ ' ' :: w.toList := by
  decide +kernel

end Unit

/-! ## Names -/

theorem isWhite_eq_false_of_isUnitLead {c : Char} (h : isUnitLead c) : Text.isWhite c = false := by
  rw [isUnitLead, Bool.or_eq_true, List.contains_iff_mem] at h
  rcases h with h | h
  · exact Text.isWhite_eq_false_of_isAlphanum (Text.isAlphanum_of_isAlpha h)
  · have hmark : ∀ c ∈ "°µ'\"".toList, Text.isWhite c = false := by decide
    exact hmark c h

theorem isValueChar_eq_false_of_isUnitLead {c : Char} (h : isUnitLead c) :
    isValueChar c = false := by
  rw [isUnitLead, Bool.or_eq_true, List.contains_iff_mem] at h
  rcases h with h | h
  · rw [isValueChar, Text.isDigit_eq_false_of_isAlpha h, Bool.false_or, Bool.or_eq_false_iff,
      beq_eq_false_iff_ne, beq_eq_false_iff_ne]
    constructor <;> rintro rfl <;> exact absurd h (by decide)
  · have hmark : ∀ c ∈ "°µ'\"".toList, isValueChar c = false := by decide
    exact hmark c h

/-- The only white space in a name is the blank. -/
theorem eq_blank_of_isWhite {c : Char} (h : isUnitChar c) (hwhite : Text.isWhite c) : c = ' ' := by
  rw [isUnitChar, Bool.or_eq_true, Bool.or_eq_true, beq_iff_eq, beq_iff_eq] at h
  rcases h with (h | rfl) | rfl
  · rw [isWhite_eq_false_of_isUnitLead h] at hwhite
    cases hwhite
  · exact absurd hwhite (by decide)
  · rfl

/-- A name of a unit, of the characters of names and without white space around it. -/
structure IsUnitName (a : Text) (m : Measure) : Prop where
  isUnitChar : ∀ c ∈ a, isUnitChar c
  trim_eq : Text.trim a = a
  lookup?_eq : Measure.lookup? a = some m

namespace IsUnitName

variable {a : Text} {m : Measure}

/-- A name is that of the tables, and perhaps points. -/
theorem exists_core (h : IsUnitName a m) : ∃ core dots, a = core ++ dots ∧
    (∀ c ∈ core, Pattern.isUnitChar c) ∧ core.map Text.foldCase ∈ Measure.names ∧
    ∀ c ∈ dots, c = '.' := by
  have hcore := Unit.exists_core h.isUnitChar (Option.isSome_of_mem h.lookup?_eq)
  rwa [h.trim_eq] at hcore

theorem exists_cons (h : IsUnitName a m) : ∃ c t, a = c :: t ∧ isUnitLead c := by
  obtain ⟨core, dots, rfl, hchars, hnames, -⟩ := h.exists_core
  have hlead := Measure.lead_of_mem_names _ hnames
  cases core with
  | nil => cases hlead
  | cons c core =>
    refine ⟨c, core ++ dots, rfl, ?_⟩
    have hfold : isUnitLead (Text.foldCase c) := hlead
    have hc := hchars c (List.mem_cons_self ..)
    rw [Pattern.isUnitChar, Bool.or_eq_true, Bool.or_eq_true, beq_iff_eq, beq_iff_eq] at hc
    rcases hc with (hc | rfl) | rfl
    · exact hc
    · exact absurd hfold (by decide)
    · exact absurd hfold (by decide)

/-- **Behind white space in a name there is one more word, which is no connective.** -/
theorem not_connective (h : IsUnitName a m) {y z : Text} {b : Char} (ha : a = y ++ b :: z)
    (hb : Text.isWhite b) : z ≠ [] ∧ (∀ c ∈ z, Text.isWhite c = false) ∧
      ∀ w ∈ Unit.connectives, z.map Text.foldCase ≠ w.toList := by
  obtain ⟨core, dots, hsplit, hchars, hnames, hdots⟩ := h.exists_core
  obtain rfl : b = ' ' := eq_blank_of_isWhite (h.isUnitChar b (by simp [ha])) hb
  have hpoint : ' ' ∉ dots := fun hmem => absurd (hdots ' ' hmem) (by decide)
  refine ⟨?_, fun c hc => ?_, fun w hw hz => ?_⟩
  · rintro rfl
    have hlast : a.getLast? = some ' ' := by simp [ha]
    rw [← h.trim_eq, ← Text.trimEnd_trim] at hlast
    exact absurd (Text.isWhite_eq_false_of_getLast?_trimEnd hlast) (by decide)
  · have hcount := Unit.countP_core_append hchars hnames hdots
    rw [← hsplit, ha, List.countP_append, List.countP_cons_of_pos hb] at hcount
    have hnone : z.countP Text.isWhite = 0 := by omega
    simpa using List.countP_eq_zero.mp hnone c hc
  · have hlower : w.toList.all Char.isLower := by
      have hall : ∀ w ∈ Unit.connectives, w.toList.all Char.isLower := by decide
      exact hall w hw
    obtain ⟨s, rfl, rfl⟩ := Text.exists_of_not_mem_right (ha.symm.trans hsplit) hpoint
    -- a point behind the word would belong to the connective
    obtain rfl : dots = [] := by
      rw [List.eq_nil_iff_forall_not_mem]
      intro c hc
      have hmem : Text.foldCase c ∈ w.toList := hz ▸ List.mem_map_of_mem (by simp [hc])
      rw [hdots c hc] at hmem
      exact absurd (List.all_eq_true.mp hlower _ hmem) (by decide)
    rw [List.append_nil] at hz
    refine Unit.not_connective_of_mem_names _ hnames (' ' :: w.toList) ?_ w hw rfl
    rw [List.mem_tails, List.map_append, List.map_cons, hz]
    exact List.suffix_append ..

end IsUnitName

namespace Unit

/-- A conversion as it is written. -/
structure Written where
  value : Text
  /-- The white space between the value and the first unit. -/
  gap : Text
  source : Text
  connective : Text
  /-- The white space in front of the connective. -/
  before : Text
  /-- The white space behind the connective. -/
  behind : Text
  target : Text
  sourceUnit : Measure
  targetUnit : Measure
  reads_value : unitValue.Reads value
  isAscii_value : ∀ c ∈ value, c.toNat < 128
  isBlank_gap : Text.isBlank gap
  isName_source : IsUnitName source sourceUnit
  isBlank_before : Text.isBlank before
  before_ne_nil : before ≠ []
  isConnective : ∃ w ∈ connectives, connective.map Text.foldCase = w.toList
  isBlank_behind : Text.isBlank behind
  behind_ne_nil : behind ≠ []
  isName_target : IsUnitName target targetUnit

/-- What is read behind the first name. -/
def rest : Regex :=
  all [many1 white, words connectives, many1 white,
    group 3 (seq (one isUnitLead) (many (one isUnitChar)))]

theorem isLower_connectives : ∀ w ∈ connectives, w.toList.all Char.isLower := by decide

/-- A connective has letters only. -/
theorem isForm_of_connective {k : Text} {w : String} (hw : w ∈ connectives)
    (hk : k.map Text.foldCase = w.toList) : ∀ c ∈ k, Text.isForm c := fun _ hc =>
  List.all_eq_true.mp (isLower_connectives w hw) _ (hk ▸ List.mem_map_of_mem hc)

/-- A text of one class is told by what follows, which is not of the class. -/
theorem eq_of_append_eq {p : Char → Bool} {k z e x : Text} (hk : ∀ c ∈ k, p c) (hz : ∀ c ∈ z, p c)
    (he : StartsOutside p e) (hx : StartsOutside p x) (h : k ++ e = z ++ x) : k = z := by
  have htake : ∀ {k e}, (∀ c ∈ k, p c) → StartsOutside p e → (k ++ e).takeWhile p = k := by
    rintro k - hk ⟨c, t, rfl, hc⟩
    rw [List.takeWhile_append_of_pos hk, List.takeWhile_cons_of_neg (by simp [hc]), List.append_nil]
  rw [← htake hk he, ← htake hz hx, h]

/-- What stands behind the first name cannot be read from a place inside the name. -/
theorem not_reads_rest {a : Text} {m : Measure} (h : IsUnitName a m) {y z x b b' : Text}
    (ha : a = y ++ z) (hz : z ≠ []) (hx : StartsOutside (!Text.isWhite ·) x)
    (hb : z ++ x = b ++ b') : ¬ rest.Reads b := by
  intro hread
  obtain ⟨e, b, rfl, he, hread⟩ := reads_seq_iff.mp hread
  obtain ⟨k, b, rfl, hk, hread⟩ := reads_seq_iff.mp hread
  obtain ⟨e', b, rfl, he', -⟩ := reads_seq_iff.mp hread
  obtain ⟨hene, he⟩ := reads_many1_one_iff.mp he
  obtain ⟨hene', he'⟩ := reads_many1_one_iff.mp he'
  obtain ⟨w, hw, hk⟩ := (reads_words_iff isLower_connectives).mp hk
  obtain ⟨c, z, rfl⟩ := List.exists_cons_of_ne_nil hz
  obtain ⟨c', e, rfl⟩ := List.exists_cons_of_ne_nil hene
  rw [List.forall_mem_cons] at he
  obtain ⟨rfl, htail⟩ := List.cons.inj hb
  obtain ⟨hzne, hzwhite, hconnective⟩ := h.not_connective ha he.1
  obtain ⟨d, z, rfl⟩ := List.exists_cons_of_ne_nil hzne
  -- a name has one blank in a row
  obtain rfl : e = [] := by
    cases e with
    | nil => rfl
    | cons d' e =>
      obtain rfl : d = d' := (List.cons.inj htail).1
      have hblank := he.2 d (List.mem_cons_self ..)
      rw [hzwhite d (List.mem_cons_self ..)] at hblank
      cases hblank
  obtain ⟨c', e', rfl⟩ := List.exists_cons_of_ne_nil hene'
  have hsplit : k ++ (c' :: e' ++ (b ++ b')) = d :: z ++ x := by simpa using htail.symm
  have hkeq : k = d :: z := by
    refine eq_of_append_eq (p := fun c => !Text.isWhite c) (fun c hc => ?_) (fun c hc => ?_)
      (.cons ?_) hx hsplit
    · rw [Text.isWhite_eq_false_of_isForm (isForm_of_connective hw hk c hc)]
      rfl
    · rw [hzwhite c hc]
      rfl
    · rw [he' c' (List.mem_cons_self ..)]
      rfl
  exact hconnective w hw (hkeq ▸ hk)

namespace Written

variable (c : Written)

/-- The text of a conversion. -/
def text : Text :=
  c.value ++ (c.gap ++ (c.source ++ (c.before ++ (c.connective ++ (c.behind ++ c.target)))))

/-- White space is followed by a letter that is none. -/
theorem takes_white {w v : Text} {g : Nat → List (Nat × Span)} {r : Regex}
    {next : Text → Prop} (hw : Text.isBlank w) (hne : w ≠ []) (hr : Takes r v next g)
    (hv : StartsOutside Text.isWhite v) :
    Takes (seq (many1 white) r) (w ++ v) next fun k => g (k + w.length) ++ [] :=
  (Takes.white1 hne hw).followedBy hr hv

theorem takes_connective :
    Takes (words connectives) c.connective (NoneNext Text.isForm) noGroups := by
  obtain ⟨w, hw, hc⟩ := c.isConnective
  exact spells_words isLower_connectives (by decide) hw hc

theorem startsOutside_connective (v : Text) : StartsOutside Text.isWhite (c.connective ++ v) := by
  obtain ⟨w, hw, hc⟩ := c.isConnective
  have hne : ∀ w ∈ connectives, w.toList ≠ [] := by decide
  obtain ⟨x, t, hx⟩ := List.exists_cons_of_ne_nil (l := c.connective) fun hnil => by
    rw [hnil] at hc
    exact hne w hw hc.symm
  rw [hx]
  refine .cons (Text.isWhite_eq_false_of_isForm (isForm_of_connective hw hc x ?_))
  simp [hx]

theorem startsOutside_name {a v : Text} {m : Measure} (h : IsUnitName a m) {p : Char → Bool}
    (hp : ∀ x, isUnitLead x → p x = false) : StartsOutside p (a ++ v) := by
  obtain ⟨x, t, rfl, hx⟩ := h.exists_cons
  exact .cons (hp x hx)

theorem startsOutside_blank {w v : Text} (hw : Text.isBlank w) (hne : w ≠ []) {p : Char → Bool}
    (hp : ∀ x, Text.isWhite x → p x = false) : StartsOutside p (w ++ v) := by
  obtain ⟨x, t, rfl⟩ := List.exists_cons_of_ne_nil hne
  exact .cons (hp x (Text.isWhite_of_isBlank hw (List.mem_cons_self ..)))

theorem takes_target : Takes (seq (one isUnitLead) (many (one isUnitChar))) c.target (· = [])
    noGroups := by
  obtain ⟨x, t, htarget, hx⟩ := c.isName_target.exists_cons
  have hchars := c.isName_target.isUnitChar
  rw [htarget] at hchars ⊢
  have hread := (Takes.one hx).andThen (Takes.many fun y hy => hchars y (List.mem_cons_of_mem x hy))
  exact hread.mono noneNext_of_eq_nil

theorem takes_rest : Takes rest (c.before ++ (c.connective ++ (c.behind ++ c.target))) (· = [])
    fun k => [(3, ⟨k + c.before.length + c.connective.length + c.behind.length,
      k + c.before.length + c.connective.length + c.behind.length + c.target.length⟩)] := by
  have hwhite := startsOutside_name (v := []) c.isName_target fun _ =>
    isWhite_eq_false_of_isUnitLead
  rw [List.append_nil] at hwhite
  have htarget := takes_white c.isBlank_behind c.behind_ne_nil (c.takes_target.group 3) hwhite
  have hconnective := c.takes_connective.followedBy htarget
    (startsOutside_blank c.isBlank_behind c.behind_ne_nil fun _ => Text.isForm_eq_false_of_isWhite)
  exact takes_white c.isBlank_before c.before_ne_nil hconnective (c.startsOutside_connective _)

/-- The first name is read as a whole in front of the rest. -/
theorem takes_source : Takes (seq (group 2 (seq (one isUnitLead) (few (one isUnitChar)))) rest)
    (c.source ++ (c.before ++ (c.connective ++ (c.behind ++ c.target)))) (· = []) fun k =>
      let j := k + c.source.length + c.before.length + c.connective.length + c.behind.length
      [(3, ⟨j, j + c.target.length⟩), (2, ⟨k, k + c.source.length⟩)] := by
  obtain ⟨x, t, hsource, hx⟩ := c.isName_source.exists_cons
  have hchars := c.isName_source.isUnitChar
  have hname := c.isName_source
  rw [hsource] at hchars hname ⊢
  refine Takes.lazy_seq hx (fun y hy => hchars y (List.mem_cons_of_mem x hy)) c.takes_rest
    fun y z hyz hz v _ b b' hb => not_reads_rest hname hyz hz ?_ hb
  rw [List.append_assoc]
  exact startsOutside_blank c.isBlank_before c.before_ne_nil fun x hx => by rw [hx]; rfl

/-- A value does not go on behind its last character. -/
theorem startsOutside_gap (v : Text) : StartsOutside isValueChar (c.gap ++ (c.source ++ v)) := by
  by_cases hgap : c.gap = []
  · rw [hgap]
    exact startsOutside_name c.isName_source fun _ => isValueChar_eq_false_of_isUnitLead
  · exact startsOutside_blank c.isBlank_gap hgap fun _ =>
      Text.of_isWhite (q := (isValueChar · = false)) (by decide +kernel)

/-- What the pattern for conversions reads off a conversion. -/
theorem takes_text : Takes unitConversion.regex c.text (· = []) fun k =>
    let i := k + c.value.length + c.gap.length
    let j := i + c.source.length + c.before.length + c.connective.length + c.behind.length
    [(3, ⟨j, j + c.target.length⟩), (2, ⟨i, i + c.source.length⟩),
      (1, ⟨k, k + c.value.length⟩)] := by
  have hsource := startsOutside_name (v := c.before ++ (c.connective ++ (c.behind ++ c.target)))
    c.isName_source fun _ => isWhite_eq_false_of_isUnitLead
  have hvalue := (takes_unitValue c.reads_value).group 1
  have hrest := (Takes.white c.isBlank_gap).followedBy c.takes_source hsource
  exact hvalue.followedBy hrest (c.startsOutside_gap _)

/-- **A conversion is split into its value and its units.** -/
theorem parts?_text : parts? c.text = some (c.value, c.source, c.target) := by
  obtain ⟨m, hm, hvalue, hsource, htarget⟩ : ∃ m, unitConversion.full? c.text = some m ∧
      m.text? c.text 1 = some c.value ∧ m.text? c.text 2 = some c.source ∧
      m.text? c.text 3 = some c.target := by
    refine ⟨_, full?_of_takes c.takes_text rfl, text?_of_groups rfl ?_ ?_ ?_⟩
    · exact Span.of_eq [] _ _ rfl rfl
    · exact Span.of_eq (c.value ++ c.gap) _ (c.before ++ (c.connective ++ (c.behind ++ c.target)))
        (by simp [text]) (by simp)
    · refine Span.of_eq
        (c.value ++ (c.gap ++ (c.source ++ (c.before ++ (c.connective ++ c.behind))))) _ []
        (by simp [text]) ?_
      simp only [List.length_append]
      omega
  rw [parts?, hm]
  simp [hvalue, hsource, htarget]

theorem trim_text : Text.trim c.text = c.text := by
  have hsplit : c.text =
      c.value ++ (c.gap ++ (c.source ++ (c.before ++ (c.connective ++ c.behind)))) ++ c.target := by
    simp [text]
  rw [hsplit]
  refine Text.trim_append ?_ c.isName_target.trim_eq ?_
  · rw [List.head?_append_of_ne_nil _ (ne_nil_of_unitValue c.reads_value)]
    exact fun x hx => isWhite_eq_false_of_unitValue c.reads_value x (List.mem_of_mem_head? hx)
  · obtain ⟨x, t, htarget, -⟩ := c.isName_target.exists_cons
    rw [htarget]
    exact List.cons_ne_nil x t

/-- **What a conversion shows.** Its value is a number once its separators are resolved. If the
units are of one category and the converted value is finite, this is shown with the name of the
second unit, unless more places are asked for than can be written; otherwise there is no match. -/
theorem detect_text (ctx : Context) :
    parts? (Text.trim c.text) = some (c.value, c.source, c.target) ∧
    ∃ plain x, Number.normalize? c.value = some plain ∧ Decimal.float? plain = some x ∧
      ((Measure.convert? x c.sourceUnit c.targetUnit).isSome ↔
        c.sourceUnit.SameCategory c.targetUnit) ∧
      detector.detect ctx c.text =
        match (Measure.convert? x c.sourceUnit c.targetUnit).filter Float.isFinite with
        | none => .ok .noMatch
        | some y =>
          if ctx.config.precision ≤ maxPlaces then
            .ok (.text (Number.decimalText y ctx.config.precision ++ ' ' :: c.target))
          else .error .aborted := by
  have hparts : parts? (Text.trim c.text) = some (c.value, c.source, c.target) := by
    rw [c.trim_text, c.parts?_text]
  obtain ⟨plain, x, hplain, hx⟩ := exists_float? c.reads_value c.isAscii_value
  refine ⟨hparts, plain, x, hplain, hx, Measure.isSome_convert?_iff, ?_⟩
  simp only [detector, conversion?, converted?, hparts, hplain, hx, c.isName_source.lookup?_eq,
    c.isName_target.lookup?_eq, c.isName_target.trim_eq, Option.bind_eq_bind, Option.bind_some]
  cases hy : Measure.convert? x c.sourceUnit c.targetUnit with
  | none => rfl
  | some y =>
    cases hfinite : y.isFinite with
    | false => simp [Option.filter, hfinite, pure, Except.pure]
    | true => simp [Option.filter, hfinite, pure, Except.pure, throw, throwThe, MonadExceptOf.throw]

/-- Inches, which have the name of a connective, in front of the connective. -/
theorem detect_inches :
    detector.detect ⟨{}, .standard, ⟨2026, 10, 19, by decide⟩, .whole, []⟩
      "-1,200.5in In  Nautical Miles.".toList = .ok (.text "-0.0165 Nautical Miles.".toList) := by
  obtain ⟨c, htext, hvalue, htarget, hsource', htarget'⟩ : ∃ c : Written,
      c.text = "-1,200.5in In  Nautical Miles.".toList ∧ c.value = "-1,200.5".toList ∧
        c.target = "Nautical Miles.".toList ∧ c.sourceUnit = .scaled .length 0.0254 ∧
        c.targetUnit = .scaled .length 1852.0 := by
    refine ⟨{
      value := "-1,200.5".toList, gap := [], source := "in".toList, connective := "In".toList
      before := [' '], behind := "  ".toList, target := "Nautical Miles.".toList
      sourceUnit := .scaled .length 0.0254, targetUnit := .scaled .length 1852.0
      reads_value := (matchesAll_iff_reads (p := .ofRegex unitValue) rfl).mp (by decide +kernel)
      isAscii_value := by decide
      isBlank_gap := rfl
      isName_source := ⟨by decide, by decide, rfl⟩
      isBlank_before := rfl
      before_ne_nil := by decide
      isConnective := ⟨"in", by decide, by decide⟩
      isBlank_behind := by decide
      behind_ne_nil := by decide
      isName_target := ⟨by decide, by decide, rfl⟩ }, by decide, rfl, rfl, rfl, rfl⟩
  obtain ⟨-, plain, x, hplain, hx, -, hdetect⟩ :=
    c.detect_text ⟨{}, .standard, ⟨2026, 10, 19, by decide⟩, .whole, []⟩
  have hplain' : Number.normalize? "-1,200.5".toList = some "-1200.5".toList := by decide +kernel
  rw [hvalue, hplain', Option.some.injEq] at hplain
  have hx' : Decimal.float? "-1200.5".toList = some (-1200.5) := by decide +kernel
  rw [← hplain, hx', Option.some.injEq] at hx
  have hconverted : (Measure.convert? (-1200.5) (.scaled .length 0.0254)
      (.scaled .length 1852.0)).filter Float.isFinite = some (-1200.5 * 0.0254 / 1852.0) := by
    decide +kernel
  have hshown : Number.decimalText (-1200.5 * 0.0254 / 1852.0) 4 = "-0.0165".toList := by
    decide +kernel
  rw [htext, ← hx, hsource', htarget', hconverted, htarget] at hdetect
  dsimp only at hdetect
  rw [if_pos (by decide), hshown] at hdetect
  exact hdetect

end Written

end Unit

end Snippet
