import Snippet.Proofs.Arithmetic.Evaluation
import Snippet.Proofs.Arithmetic.Localized

/-!
# The values of percentages

A shorthand of two numerals stands for a share, an increase or a decrease (`Shorthand.value`). What
it is written out to is the text of a tree (`Shorthand.tree`), whose value this is. So a text that
is a shorthand but for white space, dollar signs and the case of its word has the value of the
shorthand. A clean expression that is no shorthand of numerals is kept (`evaluate_shorthands`).
-/

namespace Snippet.Arithmetic

open Regex Pattern Number

variable {t u word : Text}

/-! ## Numerals in shorthands -/

/-- A numeral is a decimal number. -/
theorem Numeral.reads (n : Numeral) : decimalNumber.Reads n.text := by
  have hdigits : ∀ {u : Text}, u ≠ [] → (∀ c ∈ u, c.isDigit) → (many1 digit).Reads u :=
    fun hne hu => reads_many1_one_iff.mpr ⟨hne, fun c hc => Text.isDigit_of_isDigit (hu c hc)⟩
  have hwhole := hdigits n.whole_ne_nil n.isDigit_whole
  cases hn : n.fraction with
  | none =>
    rw [n.text_eq_of_none hn, ← List.append_nil n.whole]
    exact .seq hwhole (.right .empty)
  | some f =>
    have hne : f ≠ [] := fun hnil => n.fraction_ne_nil (hnil ▸ hn)
    rw [n.text_eq_of_some hn]
    have hfraction := hdigits hne (n.forall_mem_fraction hn)
    exact .seq hwhole (.left (.seq (u := ['.']) (.one rfl) hfraction))

/-- A decimal number without digits of other scripts is a numeral. -/
theorem exists_numeral_of_reads (h : decimalNumber.Reads u) (hclean : ∀ c ∈ u, isClean c) :
    ∃ n : Numeral, n.text = u := by
  have hdigit : ∀ {w : Text}, (∀ c ∈ w, c ∈ u) → (∀ c ∈ w, Text.isDigit c) → ∀ c ∈ w, c.isDigit :=
    fun hmem hw c hc => isDigit_of_isClean (hclean c (hmem c hc)) (hw c hc)
  obtain ⟨w, rest, rfl, hw, hrest⟩ := reads_seq_iff.mp h
  obtain ⟨hne, hw⟩ := reads_many1_one_iff.mp hw
  have hwdigits := hdigit (fun c hc => List.mem_append_left rest hc) hw
  rcases reads_opt_iff.mp hrest with rfl | hrest
  · rw [List.append_nil]
    exact Numeral.exists_of_whole hne hwdigits
  · obtain ⟨point, f, rfl, hpoint, hf⟩ := reads_seq_iff.mp hrest
    obtain ⟨c, rfl, hc⟩ := reads_one_iff.mp hpoint
    obtain rfl := beq_iff_eq.mp hc
    obtain ⟨hfne, hf⟩ := reads_many1_one_iff.mp hf
    have hfdigits := hdigit (w := f) (fun c hc => by simp [hc]) hf
    exact Numeral.exists_of_parts hne hwdigits hfne hfdigits

/-! ## Written out -/

/-- The literal 100. -/
def Literal.hundred : Literal := ⟨"100".toList, none, by decide, by decide, by decide⟩

/-- The literal 1. -/
def Literal.one : Literal := ⟨"1".toList, none, by decide, by decide, by decide⟩

theorem Literal.value_hundred : hundred.value = 100 := by decide +kernel

theorem Literal.value_one : one.value = 1 := by decide +kernel

namespace Shorthand

/-- What a shorthand of the percentage `x` and the number `y` stands for. -/
def value (s : Shorthand) (x y : Float) : Float :=
  match s with
  | share => x / 100 * y
  | increase => y * (1 + x / 100)
  | decrease => y * (1 - x / 100)

/-- The tree of a shorthand that is written out. -/
def tree (s : Shorthand) (x y : Literal) : Tree :=
  let part := .binary .div (.number [] x) (.number [] .hundred)
  match s with
  | share => .group [] (.binary .mul part (.number [] y))
  | increase => .binary .mul (.number [] y) (.group [] (.binary .add (.number [] .one) part))
  | decrease => .binary .mul (.number [] y) (.group [] (.binary .sub (.number [] .one) part))

variable {s : Shorthand} {x y : Literal}

theorem text_tree : (s.tree x y).text = s.expansion x.text y.text := by
  cases s <;>
    simp [tree, expansion, Tree.text, Literal.hundred, Literal.one, Literal.text, Operator.toChar]

theorem derives_tree : (s.tree x y).Derives .expr := by
  have hnumber : ∀ n, Tree.Derives .power (.number [] n) := fun n => .unary (.number [] n)
  have hpart : Tree.Derives .term (.binary .div (.number [] x) (.number [] .hundred)) :=
    .product (.inr (.inl rfl)) (.power (hnumber x)) (hnumber .hundred)
  cases s with
  | share =>
    exact .term (.power (.unary (.group [] (.term (.product (.inl rfl) hpart (hnumber y))))))
  | increase =>
    exact .term (.product (.inl rfl) (.power (hnumber y))
      (.unary (.group [] (.sum (.inl rfl) (.term (.power (hnumber .one))) hpart))))
  | decrease =>
    exact .term (.product (.inl rfl) (.power (hnumber y))
      (.unary (.group [] (.sum (.inr rfl) (.term (.power (hnumber .one))) hpart))))

theorem value?_tree : (s.tree x y).value? = some (s.value x.value y.value) := by
  have hne : ((100 : Float) == 0.0) = false := by decide +kernel
  cases s <;>
    simp [tree, Tree.value?, Sign.apply, Literal.value_hundred, Literal.value_one, Operator.apply,
      hne, value]

/-- **A shorthand that is written out has the value of the shorthand, if this is finite.** -/
theorem evaluate_expansion : evaluate (s.expansion x.text y.text) =
    (some (s.value x.value y.value)).filter Float.isFinite := by
  have hvalue := (evaluate_text ⟨s.tree x y, derives_tree⟩).1
  rwa [text_tree, value?_tree] at hvalue

/-! ## Shorthands in a text -/

/-- A shorthand of numerals has no separators to be resolved. -/
theorem localizes_text (s : Shorthand) (x y : Numeral)
    (hword : word.map Text.foldCase = "of".toList) :
    Localizes (s.text word x.text y.text) (s.text word x.text y.text) := by
  have hnumeral : ∀ (n : Numeral) {c : Char} {e : Text}, isNumberChar c = false → Localizes e e →
      Localizes (n.text ++ c :: e) (n.text ++ c :: e) := fun n c e hc h =>
    .numeral .plain (StartsOutside.cons hc).noneNext (.other hc h)
  have hend : ∀ n : Numeral, Localizes n.text n.text := fun n => by
    simpa using Localizes.numeral (n := n) .plain (by simp [NoneNext]) .nil
  cases s with
  | share =>
    have hnumber : ∀ c ∈ word, isNumberChar c = false := fun c hc =>
      (not_isClean_of_isOfLetter (isOfLetter_of_mem hword c hc)).2.1
    exact hnumeral x rfl (.append hnumber (hend y))
  | increase => exact hnumeral y rfl (hnumeral x rfl .nil)
  | decrease => exact hnumeral y rfl (hnumeral x rfl .nil)

/-- A text that is a shorthand of numerals cleans to the shorthand written out. -/
theorem clean?_of_strip {s : Shorthand} {x y : Numeral}
    (hword : word.map Text.foldCase = "of".toList) (ht : strip t = s.text word x.text y.text) :
    clean? t = some (s.expansion x.text y.text) := by
  have hwrites : s.Writes x.text y.text (s.text word x.text y.text) :=
    ⟨x.reads, y.reads, word, hword, rfl⟩
  have hnumeral : ∀ n : Numeral, n.text.all isClean := fun n => List.all_eq_true.mpr fun c hc => by
    have hor := n.isNumeric_of_mem hc
    rw [isNumeric] at hor
    rw [isClean, hor, Bool.true_or]
  rw [clean?_eq_some_iff, ht, (localizes_text s x y hword).resolveAll_eq,
    hwrites.expandPercentages_eq]
  refine ⟨rfl, ?_, all_isClean_expansion_iff.mpr ⟨hnumeral x, hnumeral y⟩⟩
  cases s <;> simp [expansion]

end Shorthand

/-- A clean expression that is written out is a shorthand of numerals. -/
theorem exists_text_of_expandPercentages_ne {e : Text} (he : e.all isClean)
    (h : expandPercentages e ≠ e) :
    ∃ (s : Shorthand) (x y : Numeral), e = s.text "of".toList x.text y.text := by
  rw [List.all_eq_true] at he
  obtain ⟨s, a, b, hwrites, -⟩ := (expandPercentages_cases e).resolve_left h
  obtain ⟨x, rfl⟩ := exists_numeral_of_reads hwrites.reads_percentage fun c hc =>
    he c (hwrites.mem_text (.inl hc))
  obtain ⟨y, rfl⟩ := exists_numeral_of_reads hwrites.reads_number fun c hc =>
    he c (hwrites.mem_text (.inr (.inl hc)))
  obtain ⟨-, -, word, hword, rfl⟩ := hwrites
  refine ⟨s, x, y, ?_⟩
  cases s with
  | share =>
    -- the letters of the word are not clean
    cases word with
    | nil => cases hword
    | cons c word =>
      have hletter := Shorthand.isOfLetter_of_mem hword c (List.mem_cons_self ..)
      have hclean := he c (by simp [Shorthand.text])
      rw [(not_isClean_of_isOfLetter hletter).1] at hclean
      cases hclean
  | increase => rfl
  | decrease => rfl

/-- **A text that is a shorthand of numerals, but for white space, dollar signs and the case of its
word, has the value of the shorthand if this is finite. Every other clean expression is kept.** -/
theorem evaluate_shorthands :
    (∀ (s : Shorthand) (x y : Numeral) (word t : Text), Text.lower word = "of".toList →
      strip t = s.text word x.text y.text → ∃ e, clean? t = some e ∧ evaluate e =
        if (s.value x.value y.value).isFinite then some (s.value x.value y.value) else none) ∧
    ∀ e : Text, e.all isClean →
      (∀ (s : Shorthand) (x y : Numeral) (word : Text), Text.lower word = "of".toList →
        e ≠ s.text word x.text y.text) → expandPercentages e = e := by
  refine ⟨fun s x y word t hword ht => ?_, fun e he hother => ?_⟩
  · have hfold := Text.map_foldCase_eq_of_lower (w := "of".toList) (by decide) hword
    exact ⟨_, Shorthand.clean?_of_strip hfold ht, Shorthand.evaluate_expansion⟩
  · by_contra h
    obtain ⟨s, x, y, rfl⟩ := exists_text_of_expandPercentages_ne he h
    exact hother s x y _ (by decide) rfl

/-- Five percent of a price, and a remainder, which is kept. -/
theorem evaluate_share_beside_remainder :
    (clean? "5 % OF $20.5".toList).bind evaluate = some (5 / 100 * 20.5) ∧
      expandPercentages "7%3".toList = "7%3".toList := by
  let rate : Numeral := ⟨⟨['5'], none, by decide, by decide, by decide⟩, by decide, by decide⟩
  let price : Numeral :=
    ⟨⟨"20".toList, some ['5'], by decide, by decide, by decide⟩, by decide, by decide⟩
  constructor
  · obtain ⟨e, he, hvalue⟩ := evaluate_shorthands.1 .share rate price "OF".toList
      "5 % OF $20.5".toList (by decide) (by decide)
    rw [he, Option.bind_some, hvalue]
    decide +kernel
  · refine evaluate_shorthands.2 _ (by decide) fun s x y word hword htext => ?_
    have hmem : ∀ c ∈ s.text word x.text y.text, c ∈ "7%3".toList := fun c hc => htext ▸ hc
    cases s with
    | share =>
      cases word with
      | nil => cases hword
      | cons c word =>
        have hnone : ∀ c ∈ "7%3".toList, c.toLower ≠ 'o' := by decide
        exact hnone c (hmem c (by simp [Shorthand.text])) (List.cons.inj hword).1
    | increase => exact absurd (hmem '+' (by simp [Shorthand.text])) (by decide)
    | decrease => exact absurd (hmem '-' (by simp [Shorthand.text])) (by decide)

end Snippet.Arithmetic
