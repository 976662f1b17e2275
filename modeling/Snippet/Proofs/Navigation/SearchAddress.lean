import Snippet.Navigation.Detector
import Snippet.Proofs.Config.Validity
import Snippet.Proofs.Pattern.Letters
import Snippet.Proofs.Text.Template

/-!
# The query in the address of a web search

The check of a configuration looks for the phrase of the query placeholder, while a search reads the
address as a template. The two agree unless another placeholder is still open in front of the phrase
(`PlacesQuery`): then the phrase is the end of that placeholder's key, and the search is the same for
every query (`search_address_carries_query`).
-/

namespace Snippet

/-! ## Encoded queries -/

namespace Percent

/-- Whether a byte stands for itself in the value of a form field. -/
def isFormSafe (b : UInt8) : Bool :=
  let c := Char.ofNat b.toNat
  c.isAlphanum || "*-._".toList.contains c

/-- A byte in the value of a form field. -/
def formByte (b : UInt8) : Text :=
  if b = 0x20 then ['+'] else if isFormSafe b then [Char.ofNat b.toNat] else byte b

/-- Beyond ASCII every byte is escaped. -/
theorem formByte_of_le {n : Nat} (h : 128 ≤ n) (hn : n < 256) :
    formByte (UInt8.ofNat n) = byte (UInt8.ofNat n) := by
  have hall : ∀ n < 256, 128 ≤ n → formByte (UInt8.ofNat n) = byte (UInt8.ofNat n) := by
    decide +kernel
  exact hall n hn h

theorem exists_of_mem_utf8EncodeChar {c : Char} (hc : 128 ≤ c.toNat) {b : UInt8}
    (h : b ∈ String.utf8EncodeChar c) : ∃ n, 128 ≤ n ∧ n < 256 ∧ b = UInt8.ofNat n := by
  have hlong : ¬ c.val.toNat ≤ 127 := Nat.not_le.mpr hc
  rw [String.utf8EncodeChar] at h
  simp only [hlong, if_false] at h
  split at h
  · simp only [List.mem_cons, List.not_mem_nil, or_false] at h
    rcases h with rfl | rfl <;> exact ⟨_, by omega, by omega, rfl⟩
  · split at h
    · simp only [List.mem_cons, List.not_mem_nil, or_false] at h
      rcases h with rfl | rfl | rfl <;> exact ⟨_, by omega, by omega, rfl⟩
    · simp only [List.mem_cons, List.not_mem_nil, or_false] at h
      rcases h with rfl | rfl | rfl | rfl <;> exact ⟨_, by omega, by omega, rfl⟩

theorem formEncode_singleton_of_le {c : Char} (hc : 128 ≤ c.toNat) : formEncode [c] = escape c := by
  have halnum : c.isAlphanum = false := by
    rw [Char.isAlphanum, ← Bool.not_eq_true, Bool.or_eq_true]
    rintro (h | h)
    · have halpha := Text.toNat_of_isAlpha h
      omega
    · have hdigit := Text.toNat_of_isDigit h
      omega
  have hne : ∀ d : Char, d.toNat < 128 → c ≠ d := by
    rintro d hd rfl
    omega
  simp [formEncode, halnum, hne]

theorem formEncode_singleton (c : Char) :
    formEncode [c] = (String.utf8EncodeChar c).flatMap formByte := by
  by_cases hc : c.toNat < 128
  · have hascii : ∀ n < 128, formEncode [Char.ofNat n] =
        (String.utf8EncodeChar (Char.ofNat n)).flatMap formByte := by
      decide +kernel
    simpa using hascii c.toNat hc
  · have hle : 128 ≤ c.toNat := Nat.not_lt.mp hc
    have hbyte : ∀ b ∈ String.utf8EncodeChar c, formByte b = byte b := by
      intro b hb
      obtain ⟨n, hn, hlt, rfl⟩ := exists_of_mem_utf8EncodeChar hle hb
      exact formByte_of_le hn hlt
    rw [formEncode_singleton_of_le hle, escape, List.flatMap_def, List.flatMap_def,
      List.map_congr_left hbyte]

/-- **A value of a form field is encoded byte by byte.** -/
theorem formEncode_eq (t : Text) : formEncode t = (Text.utf8 t).flatMap formByte := by
  have hchars : formEncode t = t.flatMap fun c => formEncode [c] := by simp [formEncode]
  rw [hchars, Text.utf8, List.flatMap_assoc]
  simp only [formEncode_singleton]

end Percent

namespace Navigation

open Template

variable {config : Config} {ctx : Context} {t url query before after : Text}

/-! ## Texts that are searched for -/

/-- Navigation is on, looks at all of an input that nothing else has matched, and finds neither an
address nor a path in it, but a text that can be searched for. -/
structure FallsThrough (ctx : Context) (t : Text) : Prop where
  enabled : ctx.config.navigationEnabled = true
  whole : ctx.scope = .whole
  unmatched : ctx.log = []
  nonempty : Text.trim t ≠ []
  noWebAddress : webAddress? (Text.trim t) = none
  noAppAddress : Pattern.appUrl.matchesAll (Text.trim t) = false
  noDomain : domainAddress? (Text.trim t) = none
  noPath : Pattern.filePath.matchesAll (Text.trim t) = false
  searchable : isSearchable ctx.config (Text.trim t) = true

/-- The outcome is then the web search for the trimmed text. -/
theorem FallsThrough.detect_eq (h : FallsThrough ctx t) :
    detect ctx t = .sideEffect t (search ctx.config.searchUrl (Text.trim t)) := by
  have heffect : effect? ctx.config (Text.trim t) =
      some (search ctx.config.searchUrl (Text.trim t)) := by
    simp [effect?, h.noWebAddress, h.noAppAddress, h.noDomain, h.noPath, h.searchable]
  simp [detect, h.enabled, h.whole, h.unmatched, h.nonempty, heffect]

/-! ## The place of the query -/

/-- Some placeholder of the query stands behind a text in which nothing is open. -/
def PlacesQuery (url : Text) : Prop :=
  ∃ before after, url = before ++ (Config.queryPlaceholder ++ after) ∧ Closed before

/-- The payload is what is rendered in front of the query, the query, and what is rendered behind
it. -/
theorem payload_search_of_closed (h : Closed before) (after query : Text) :
    (search (before ++ (Config.queryPlaceholder ++ after)) query).payload =
      render before [("query".toList, Percent.formEncode query)] ++
        (Percent.formEncode query ++
          render after [("query".toList, Percent.formEncode query)]) := by
  have hplaceholder : Config.queryPlaceholder = placeholder "query".toList := by decide
  have hrender (values : List (Text × Text)) :
      render (placeholder "query".toList ++ after) values =
        (values.lookup "query".toList).getD [] ++ render after values :=
    render_placeholder_append (by decide) after
  rw [search, hplaceholder]
  simp only [placeholder, List.append_assoc] at hrender ⊢
  rw [render_append_of_closed h, hrender]
  simp

/-- Without a place for it, the query does not matter. -/
theorem payload_search_of_not_placesQuery (h : ¬ PlacesQuery url) (query : Text) :
    (search url query).payload = render url [] := by
  refine render_cons_of_not_mem fun hmem => h ?_
  obtain ⟨before, after, rfl, hbefore⟩ := exists_of_placeholder_mem hmem
  exact ⟨before, after, rfl, hbefore⟩

/-- An address that has the phrase, but no place for the query, has the phrase where a placeholder is
still open. -/
theorem exists_key_of_not_placesQuery (hphrase : Text.hasPhrase Config.queryPlaceholder url = true)
    (h : ¬ PlacesQuery url) :
    ∃ before key after, url = before ++ (opening ++ (key ++ (Config.queryPlaceholder ++ after))) ∧
      '\x7d' ∉ key := by
  obtain ⟨⟨front, after⟩, hfind⟩ := Option.isSome_iff_exists.mp hphrase
  have hurl := Text.eq_append_of_find? hfind
  have hopen : ¬ Closed front := fun hclosed => h ⟨front, after, by simpa using hurl, hclosed⟩
  simp only [Closed, Classical.not_forall] at hopen
  obtain ⟨before, key, rfl, hkey⟩ := hopen
  exact ⟨before, key, after, by simpa using hurl, hkey⟩

/-- **Which valid addresses carry the query.** -/
theorem search_address_carries_query (h : config.validate = .ok ()) :
    (PlacesQuery config.searchUrl → ∀ ctx t, ctx.config = config → FallsThrough ctx t →
      ∃ effect, detect ctx t = .sideEffect t effect ∧ effect.kind = .openUrl ∧
        (Text.utf8 (Text.trim t)).flatMap Percent.formByte <:+: effect.payload) ∧
    (¬ PlacesQuery config.searchUrl →
      (∃ before key after, config.searchUrl =
        before ++ (opening ++ (key ++ (Config.queryPlaceholder ++ after))) ∧ '\x7d' ∉ key) ∧
      ∃ payload, ∀ ctx t, ctx.config = config → FallsThrough ctx t →
        ∃ effect, detect ctx t = .sideEffect t effect ∧ effect.payload = payload) := by
  have hvalid := Config.validate_eq_ok_iff.mp h
  constructor
  · rintro ⟨before, after, hurl, hclosed⟩ ctx t rfl ht
    refine ⟨_, ht.detect_eq, rfl, ?_⟩
    rw [hurl, payload_search_of_closed hclosed, ← Percent.formEncode_eq]
    exact ⟨_, _, List.append_assoc ..⟩
  · intro hplace
    refine ⟨exists_key_of_not_placesQuery hvalid.hasPhrase_query hplace,
      render config.searchUrl [], ?_⟩
    rintro ctx t rfl ht
    exact ⟨_, ht.detect_eq, payload_search_of_not_placesQuery hplace _⟩

/-- A default configuration with another address for the search is valid if the address has the
phrase. -/
theorem validate_with_address (h : Text.hasPhrase Config.queryPlaceholder url = true) :
    Config.validate { searchUrl := url } = .ok () :=
  have hdefault : Config.IsValid {} := Config.isValid_default nofun
  Config.validate_eq_ok_iff.mpr { hdefault with hasPhrase_query := h }

/-- The query stands behind one placeholder and in front of an open one. -/
theorem search_behind_other_placeholder :
    let config : Config :=
      { searchUrl := "https://example.org/$\x7blang\x7d?q=$\x7bquery\x7d#$\x7bquery".toList }
    let ctx : Context := ⟨config, .standard, ⟨2026, 10, 19, by decide⟩, .whole, []⟩
    config.validate = .ok () ∧ PlacesQuery config.searchUrl ∧ FallsThrough ctx " zwölf & 12\t".toList ∧
      ∃ effect, detect ctx " zwölf & 12\t".toList = .sideEffect " zwölf & 12\t".toList effect ∧
        "zw%C3%B6lf+%26+12".toList <:+: effect.payload := by
  intro config ctx
  have hvalid : config.validate = .ok () := validate_with_address (by decide)
  have hplace : PlacesQuery config.searchUrl := by
    refine ⟨"https://example.org/$\x7blang\x7d?q=".toList, "#$\x7bquery".toList, by decide, ?_⟩
    have hbehind : Closed "?q=".toList := closed_of_find?_eq_none (by decide)
    exact hbehind.append "https://example.org/$\x7blang".toList
  have hfalls : FallsThrough ctx " zwölf & 12\t".toList := by
    constructor <;> decide +kernel
  obtain ⟨effect, hdetect, -, hpayload⟩ :=
    (search_address_carries_query hvalid).1 hplace ctx " zwölf & 12\t".toList rfl hfalls
  have hencoded : (Text.utf8 (Text.trim " zwölf & 12\t".toList)).flatMap Percent.formByte =
      "zw%C3%B6lf+%26+12".toList := by
    decide +kernel
  exact ⟨hvalid, hplace, hfalls, effect, hdetect, hencoded ▸ hpayload⟩

/-- **A valid address that loses the query**: its phrase ends the key of another placeholder. -/
theorem search_behind_open_placeholder :
    let config : Config := { searchUrl := "https://example.org/?$\x7blang$\x7bquery\x7d".toList }
    let ctx : Context := ⟨config, .standard, ⟨2026, 10, 19, by decide⟩, .whole, []⟩
    config.validate = .ok () ∧ FallsThrough ctx "lisp".toList ∧
      ∃ effect, detect ctx "lisp".toList = .sideEffect "lisp".toList effect ∧
        effect.payload = "https://example.org/?".toList ∧
        ¬ (Text.utf8 (Text.trim "lisp".toList)).flatMap Percent.formByte <:+: effect.payload := by
  intro config ctx
  have hfalls : FallsThrough ctx "lisp".toList := by
    constructor <;> decide +kernel
  have hpayload : (search config.searchUrl (Text.trim "lisp".toList)).payload =
      "https://example.org/?".toList := by
    decide +kernel
  refine ⟨validate_with_address (by decide), hfalls, _, hfalls.detect_eq, hpayload, ?_⟩
  rw [hpayload]
  decide +kernel

end Navigation

end Snippet
