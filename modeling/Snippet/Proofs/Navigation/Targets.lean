import Snippet.Proofs.Navigation.SearchAddress
import Snippet.Proofs.Pattern.Occurrences

/-!
# The targets that are accepted

Which addresses a target writes is left to a reader of addresses, and nothing is asked of it
(`effectBy?`, `detect_eq_detectBy`). No pattern of a target reads a line break (`target_over`), so a
target of several lines is declined. A target of one line is accepted if it can be searched for, and
a longer one only if a pattern reads it (`detectBy_accepts`). The pattern for paths shares no text
with those for addresses, so whatever it reads is opened as a path
(`IsAsked.detectBy_opens_path_iff_matchesAll`).
-/

namespace Snippet

namespace Regex

variable {u t : Text}

theorem over_chars_iff {p : Char → Prop} : (chars u).Over p ↔ ∀ c ∈ u, p c := by
  simp [chars, Regex.char, Over]

theorem reads_chars_iff : (chars u).Reads t ↔ t = u := by
  induction u generalizing t with
  | nil => exact reads_empty_iff
  | cons c u ih =>
    rw [chars, List.map_cons, reads_all_cons_iff]
    constructor
    · rintro ⟨a, b, rfl, ha, hb⟩
      obtain ⟨x, rfl, hx⟩ := reads_one_iff.mp ha
      rw [beq_iff_eq.mp hx, ih.mp hb, List.singleton_append]
    · rintro rfl
      exact ⟨[c], u, rfl, .one BEq.rfl, ih.mpr rfl⟩

end Regex

namespace Navigation

open Regex Pattern

variable {read : Text → Option Text} {config : Config} {ctx : Context} {t target : Text}

/-! ## The action with any reader of addresses -/

/-- The address of a target that writes one with its scheme. -/
def webAddressBy? (read : Text → Option Text) (target : Text) : Option Text :=
  if url.matchesAll target then read target else none

/-- The address of a target that is a domain name with a known ending. -/
def domainAddressBy? (read : Text → Option Text) (target : Text) : Option Text :=
  if hasKnownEnding target then read ("https://".toList ++ target) else none

/-- The action for a target, where `read` reads the addresses. -/
def effectBy? (read : Text → Option Text) (config : Config) (target : Text) : Option SideEffect :=
  match webAddressBy? read target with
  | some address => some (openUrl address)
  | none =>
    if appUrl.matchesAll target then some (openUrl target)
    else
      match domainAddressBy? read target with
      | some address => some (openUrl address)
      | none =>
        if filePath.matchesAll target then some (openPath target)
        else if isSearchable config target then some (search config.searchUrl target)
        else none

/-- The outcome for a text, where `read` reads the addresses. -/
def detectBy (read : Text → Option Text) (ctx : Context) (t : Text) : Outcome :=
  let target := Text.trim t
  if !ctx.config.navigationEnabled || ctx.scope ≠ .whole || !ctx.log.isEmpty || target.isEmpty then
    .noMatch
  else
    match effectBy? read ctx.config target with
    | some effect => .sideEffect t effect
    | none => .noMatch

/-- The text of the web address that a text writes. -/
def readWebAddress (t : Text) : Option Text := (WebAddress.ofText? t).map WebAddress.toText

theorem effect?_eq_effectBy? (config : Config) (target : Text) :
    effect? config target = effectBy? readWebAddress config target := by
  have hweb : webAddressBy? readWebAddress target = (webAddress? target).map WebAddress.toText := by
    rw [webAddressBy?, webAddress?]
    split <;> rfl
  have hdomain : domainAddressBy? readWebAddress target =
      (domainAddress? target).map WebAddress.toText := by
    rw [domainAddressBy?, domainAddress?]
    split <;> rfl
  rw [effect?, effectBy?, hweb, hdomain]
  cases webAddress? target with
  | some address => rfl
  | none =>
    cases domainAddress? target <;> rfl

/-- The detector is the one with the reader of web addresses. -/
theorem detect_eq_detectBy (ctx : Context) (t : Text) :
    detect ctx t = detectBy readWebAddress ctx t := by
  rw [detect, detectBy]
  refine congrArg (ite _ _) ?_
  exact effect?_eq_effectBy? ctx.config (Text.trim t) ▸ rfl

/-! ## The languages of the patterns -/

/-- A class without the line break. -/
theorem ne_newline {p : Char → Bool} (hp : p '\n' = false) (c : Char) (hc : p c) : c ≠ '\n' := by
  rintro rfl
  rw [hp] at hc
  cases hc

/-- **No pattern of a target reads a line break.** -/
theorem target_over : ∀ p ∈ [url, appUrl, domain, filePath], p.regex.Over (· ≠ '\n') := by
  have hnonwhite : nonwhite.Over (· ≠ '\n') := ne_newline rfl
  have hdigit : digit.Over (· ≠ '\n') := ne_newline rfl
  have hletter : asciiLetter.Over (· ≠ '\n') := ne_newline rfl
  have halnum : asciiAlphanum.Over (· ≠ '\n') := ne_newline rfl
  have hchar (c : Char) (hc : c ≠ '\n') : (Regex.char c).Over (· ≠ '\n') :=
    ne_newline (beq_eq_false_iff_ne.mpr hc.symm)
  have hslashes : (chars "://".toList).Over (· ≠ '\n') := over_chars_iff.mpr (by decide)
  have hlabel : domainLabel.Over (· ≠ '\n') := ⟨halnum, ⟨ne_newline rfl, halnum⟩, trivial⟩
  have hurl : url.regex.Over (· ≠ '\n') :=
    ⟨over_word_iff.mpr (by decide), ⟨over_letter_iff.mpr (by decide), trivial⟩, hslashes,
      hnonwhite, hnonwhite⟩
  have happ : appUrl.regex.Over (· ≠ '\n') := ⟨hletter, ne_newline rfl, hslashes, hnonwhite⟩
  have hdomain : domain.regex.Over (· ≠ '\n') :=
    ⟨⟨⟨hlabel, hchar _ (by decide)⟩, hlabel, hchar _ (by decide)⟩,
      ⟨over_times hletter 2, hletter⟩, ⟨⟨hchar _ (by decide), hdigit, hdigit⟩, trivial⟩,
      ⟨hchar _ (by decide), hnonwhite⟩, trivial⟩
  have hpath : filePath.regex.Over (· ≠ '\n') :=
    ⟨⟨hchar _ (by decide), hchar _ (by decide), hletter, hchar _ (by decide),
      hchar _ (by decide)⟩, ne_newline rfl⟩
  simp only [List.forall_mem_cons]
  exact ⟨hurl, happ, hdomain, hpath, nofun⟩

theorem matchesAll_of_hasKnownEnding (h : hasKnownEnding target) : domain.matchesAll target := by
  rw [hasKnownEnding, Option.any_eq_true] at h
  obtain ⟨ending, hending, -⟩ := h
  obtain ⟨m, hm, -⟩ := Option.bind_eq_some_iff.mp hending
  rw [matchesAll, hm]
  rfl

/-- A path begins with a mark, or with the letter of a drive. -/
theorem starts_of_filePath (h : filePath.matchesAll target) :
    ∃ c v, target = c :: v ∧ (c = '~' ∨ c = '/' ∨ ∃ w, v = ':' :: '\\' :: w) := by
  have hread : filePath.regex.Reads target := reads_of_matchesAll h
  obtain ⟨a, b, rfl, ha, -⟩ := reads_seq_iff.mp hread
  rcases reads_alt_iff.mp ha with ha | ha
  · obtain ⟨c, rfl, hc⟩ := reads_one_iff.mp ha
    exact ⟨c, b, rfl, .inl (beq_iff_eq.mp hc)⟩
  rcases reads_alt_iff.mp ha with ha | ha
  · obtain ⟨c, rfl, hc⟩ := reads_one_iff.mp ha
    exact ⟨c, b, rfl, .inr (.inl (beq_iff_eq.mp hc))⟩
  · obtain ⟨d, e, rfl, hd, he⟩ := reads_seq_iff.mp ha
    obtain ⟨x, rfl, -⟩ := reads_one_iff.mp hd
    have hcolon : (chars ":\\".toList).Reads e := he
    rw [reads_chars_iff] at hcolon
    exact ⟨x, e ++ b, rfl, .inr (.inr ⟨b, by rw [hcolon]; rfl⟩)⟩

/-- A path is no address: the first colon of an address stands in front of a slash, and the first
colon of a drive in front of a backslash. -/
theorem not_filePath_of_scheme {r s body : Regex} (hstarts : r.Starts fun x => x ≠ '~' ∧ x ≠ '/')
    (hr : r.Over (· ≠ ':')) (hs : s.Over (· ≠ ':'))
    (h : (all [r, s, chars "://".toList, body]).Reads target) : ¬ filePath.matchesAll target := by
  intro hpath
  obtain ⟨a, d, rfl, ha, hd⟩ := reads_seq_iff.mp h
  obtain ⟨b, e, rfl, hb, he⟩ := reads_seq_iff.mp hd
  obtain ⟨slashes, f, rfl, hslashes, -⟩ := reads_seq_iff.mp he
  obtain rfl := reads_chars_iff.mp hslashes
  obtain ⟨x, a, rfl, hx⟩ := ha.exists_cons hstarts
  obtain ⟨c, v, hcv, hstart⟩ := starts_of_filePath hpath
  obtain ⟨rfl, hv⟩ := List.cons.inj hcv
  rcases hstart with rfl | rfl | ⟨w, rfl⟩
  · exact hx.1 rfl
  · exact hx.2 rfl
  · have hscheme : ∀ y ∈ a ++ b, y ≠ ':' := List.forall_mem_append.mpr
      ⟨fun y hy => ha.forall_mem hr y (List.mem_cons_of_mem x hy), hb.forall_mem hs⟩
    have hrest : (a ++ b) ++ ("://".toList ++ f) = ':' :: '\\' :: w := by simpa using hv
    cases hab : a ++ b with
    | nil => simp [hab] at hrest
    | cons y ab =>
      rw [hab] at hscheme hrest
      exact hscheme y (List.mem_cons_self ..) (List.cons.inj hrest).1

/-- A path is no address with a scheme. -/
theorem not_appUrl_of_filePath (h : filePath.matchesAll target) : ¬ appUrl.matchesAll target := by
  intro happ
  refine not_filePath_of_scheme ?_ ?_ ?_ (reads_of_matchesAll happ) h
  · rintro x hx
    constructor <;> rintro rfl <;> exact absurd hx (by decide)
  all_goals
    rintro x hx rfl
    exact absurd hx (by decide)

/-- A path is no address of the web. -/
theorem not_url_of_filePath (h : filePath.matchesAll target) : ¬ url.matchesAll target := by
  intro hurl
  refine not_filePath_of_scheme ?_ ?_ ?_ (reads_of_matchesAll hurl) h
  · exact .inl (over_letter_iff.mpr (by decide))
  · exact over_word_iff.mpr (by decide)
  · exact ⟨over_letter_iff.mpr (by decide), trivial⟩

/-- A path is no domain name. -/
theorem not_domain_of_filePath (h : filePath.matchesAll target) : ¬ domain.matchesAll target := by
  intro hdomain
  have hread : domain.regex.Reads target := reads_of_matchesAll hdomain
  have hstarts : domain.regex.Starts (·.isAlphanum) := .inl (.inl (.inl (.inl fun _ hx => hx)))
  have hlabel : domainLabel.Over fun x => x.isAlphanum ∨ x = '-' :=
    ⟨fun _ => .inl, ⟨fun x hx => by simpa using hx, fun _ => .inl⟩, trivial⟩
  have hleads : domain.regex.Leads (fun x => x.isAlphanum ∨ x = '-') (· = '.') :=
    .inl (.inl (.inr ⟨hlabel, fun _ => beq_iff_eq.mp⟩))
  obtain ⟨x, u, rfl, hx⟩ := hread.exists_cons hstarts
  obtain ⟨c, v, hcv, hstart⟩ := starts_of_filePath h
  obtain ⟨rfl, rfl⟩ := List.cons.inj hcv
  rcases hstart with rfl | rfl | ⟨w, rfl⟩
  · exact absurd hx (by decide)
  · exact absurd hx (by decide)
  · -- a domain name has a point in front of its first colon
    obtain ⟨a, y, b, hab, ha, rfl⟩ := hread.exists_append_cons hleads
    cases a with
    | nil =>
      obtain ⟨rfl, -⟩ := List.cons.inj hab
      exact absurd hx (by decide)
    | cons d a =>
      obtain ⟨rfl, hrest⟩ := List.cons.inj hab
      cases a with
      | nil => simp at hrest
      | cons e a =>
        obtain ⟨rfl, -⟩ := List.cons.inj hrest
        exact absurd (ha ':' (by simp)) (by decide)

/-! ## The action for a target -/

/-- A pattern reads the target: it is an address, a domain name with a known ending, or a path. -/
def IsPlace (target : Text) : Prop :=
  url.matchesAll target ∨ appUrl.matchesAll target ∨ hasKnownEnding target ∨
    filePath.matchesAll target

/-- A place has one line. -/
theorem IsPlace.not_mem_newline (h : IsPlace target) : '\n' ∉ target := by
  have hmatch : ∃ p ∈ [url, appUrl, domain, filePath], p.matchesAll target := by
    rcases h with h | h | h | h
    · exact ⟨url, by simp, h⟩
    · exact ⟨appUrl, by simp, h⟩
    · exact ⟨domain, by simp, matchesAll_of_hasKnownEnding h⟩
    · exact ⟨filePath, by simp, h⟩
  obtain ⟨p, hp, h⟩ := hmatch
  exact fun hmem => (reads_of_matchesAll h).forall_mem (target_over p hp) _ hmem rfl

theorem isSearchable_iff :
    isSearchable config target ↔ '\n' ∉ target ∧ target.length ≤ config.maxSearchLength := by
  simp [isSearchable]

/-- The target is an address of the web that the reader accepts. -/
def IsReadWebAddress (read : Text → Option Text) (target : Text) : Prop :=
  url.matchesAll target ∧ (read target).isSome

/-- The target is a domain name with a known ending that the reader accepts behind a scheme. -/
def IsReadDomain (read : Text → Option Text) (target : Text) : Prop :=
  hasKnownEnding target ∧ (read ("https://".toList ++ target)).isSome

theorem isSome_webAddressBy?_iff : (webAddressBy? read target).isSome ↔
    IsReadWebAddress read target := by
  rw [webAddressBy?, IsReadWebAddress]
  split <;> simp [*]

theorem isSome_domainAddressBy?_iff : (domainAddressBy? read target).isSome ↔
    IsReadDomain read target := by
  rw [domainAddressBy?, IsReadDomain]
  split <;> simp [*]

/-- **Which targets have an action.** -/
theorem isSome_effectBy?_iff : (effectBy? read config target).isSome ↔
    IsReadWebAddress read target ∨ appUrl.matchesAll target ∨ IsReadDomain read target ∨
      filePath.matchesAll target ∨ isSearchable config target := by
  rw [effectBy?, ← isSome_webAddressBy?_iff, ← isSome_domainAddressBy?_iff]
  cases webAddressBy? read target with
  | some address => simp
  | none =>
    cases appUrl.matchesAll target with
    | true => simp
    | false =>
      cases domainAddressBy? read target with
      | some address => simp
      | none =>
        cases filePath.matchesAll target with
        | true => simp
        | false => cases isSearchable config target <;> simp

/-- An action that is not a search is for a place. -/
theorem isPlace_of_isSome_effectBy? (h : (effectBy? read config target).isSome)
    (hsearch : ¬ isSearchable config target) : IsPlace target := by
  rcases isSome_effectBy?_iff.mp h with h | h | h | h | h
  · exact .inl h.1
  · exact .inr (.inl h)
  · exact .inr (.inr (.inl h.1))
  · exact .inr (.inr (.inr h))
  · exact absurd h hsearch

/-- **A path is opened if no address has been read before.** -/
theorem effectBy?_opens_path_iff (config : Config) :
    (∃ effect, effectBy? read config target = some effect ∧ effect.kind = .openPath) ↔
      filePath.matchesAll target ∧ ¬ appUrl.matchesAll target ∧ ¬ IsReadDomain read target ∧
        ¬ IsReadWebAddress read target := by
  rw [effectBy?, ← isSome_webAddressBy?_iff, ← isSome_domainAddressBy?_iff]
  cases webAddressBy? read target with
  | some address => simp [openUrl]
  | none =>
    cases appUrl.matchesAll target with
    | true => simp [openUrl]
    | false =>
      cases domainAddressBy? read target with
      | some address => simp [openUrl]
      | none =>
        cases filePath.matchesAll target with
        | true => simp [openPath]
        | false => cases isSearchable config target <;> simp [search]

/-! ## The outcome for a text -/

/-- Navigation looks at the text: it is on, sees all of the input, and nothing else has matched. -/
structure IsAsked (ctx : Context) : Prop where
  enabled : ctx.config.navigationEnabled = true
  whole : ctx.scope = .whole
  unmatched : ctx.log = []

theorem IsAsked.detectBy_eq (h : IsAsked ctx) (hne : Text.trim t ≠ []) :
    detectBy read ctx t = match effectBy? read ctx.config (Text.trim t) with
      | some effect => .sideEffect t effect
      | none => .noMatch := by
  simp [detectBy, h.enabled, h.whole, h.unmatched, hne]

/-- The outcome is an action exactly if there is one for the target. -/
theorem IsAsked.detectBy_eq_sideEffect_iff (h : IsAsked ctx) (hne : Text.trim t ≠ [])
    {shown : Text} {effect : SideEffect} :
    detectBy read ctx t = .sideEffect shown effect ↔
      shown = t ∧ effectBy? read ctx.config (Text.trim t) = some effect := by
  rw [h.detectBy_eq hne]
  cases effectBy? read ctx.config (Text.trim t) with
  | some found => simp [eq_comm]
  | none => simp

theorem detectBy_of_trim_eq_nil (h : Text.trim t = []) : detectBy read ctx t = .noMatch := by
  simp [detectBy, h]

theorem IsAsked.detectBy_opens_path_iff (h : IsAsked ctx) (t : Text) :
    (∃ shown effect, detectBy read ctx t = .sideEffect shown effect ∧ effect.kind = .openPath) ↔
      filePath.matchesAll (Text.trim t) ∧ ¬ appUrl.matchesAll (Text.trim t) ∧
        ¬ IsReadDomain read (Text.trim t) ∧ ¬ IsReadWebAddress read (Text.trim t) := by
  by_cases hne : Text.trim t = []
  · -- a blank text is no target, and no path is blank
    have hpath : ¬ filePath.matchesAll [] := by decide
    simp [detectBy_of_trim_eq_nil hne, hne, hpath]
  · rw [← effectBy?_opens_path_iff ctx.config]
    constructor
    · rintro ⟨shown, effect, heffect, hkind⟩
      exact ⟨effect, ((h.detectBy_eq_sideEffect_iff hne).mp heffect).2, hkind⟩
    · rintro ⟨effect, heffect, hkind⟩
      exact ⟨t, effect, (h.detectBy_eq_sideEffect_iff hne).mpr ⟨rfl, heffect⟩, hkind⟩

/-- **What the pattern for paths reads is opened as a path**: it shares no text with those for
addresses. -/
theorem IsAsked.detectBy_opens_path_iff_matchesAll (h : IsAsked ctx) (t : Text) :
    (∃ shown effect, detectBy read ctx t = .sideEffect shown effect ∧ effect.kind = .openPath) ↔
      filePath.matchesAll (Text.trim t) := by
  rw [h.detectBy_opens_path_iff]
  refine ⟨And.left, fun hpath => ⟨hpath, not_appUrl_of_filePath hpath, ?_, ?_⟩⟩
  · exact fun hread => not_domain_of_filePath hpath (matchesAll_of_hasKnownEnding hread.1)
  · exact fun hread => not_url_of_filePath hpath hread.1

/-- **Navigation accepts the targets of one line.** Whatever the reader of addresses does: a target
of several lines is declined; one line that can be searched for is accepted; a longer line is
accepted only if a pattern reads it; and a path is opened exactly if the target is a path, and no
address was read before. -/
theorem detectBy_accepts (h : IsAsked ctx) (t : Text) :
    detect ctx t = detectBy readWebAddress ctx t ∧ ∀ read,
      ('\n' ∈ Text.trim t → detectBy read ctx t = .noMatch) ∧
      (Text.trim t ≠ [] → '\n' ∉ Text.trim t →
        (Text.trim t).length ≤ ctx.config.maxSearchLength →
          ∃ effect, detectBy read ctx t = .sideEffect t effect) ∧
      (ctx.config.maxSearchLength < (Text.trim t).length → ∀ shown effect,
        detectBy read ctx t = .sideEffect shown effect → IsPlace (Text.trim t)) ∧
      ((∃ shown effect, detectBy read ctx t = .sideEffect shown effect ∧ effect.kind = .openPath) ↔
        filePath.matchesAll (Text.trim t) ∧ ¬ appUrl.matchesAll (Text.trim t) ∧
          ¬ IsReadDomain read (Text.trim t) ∧ ¬ IsReadWebAddress read (Text.trim t)) := by
  refine ⟨detect_eq_detectBy ctx t, fun read => ⟨fun hline => ?_, fun hne hline hlength => ?_,
    fun hlength shown effect heffect => ?_, h.detectBy_opens_path_iff t⟩⟩
  · by_cases hne : Text.trim t = []
    · exact detectBy_of_trim_eq_nil hne
    have hsearch : ¬ isSearchable ctx.config (Text.trim t) := fun hsearch =>
      (isSearchable_iff.mp hsearch).1 hline
    have hnone : effectBy? read ctx.config (Text.trim t) = none := by
      rw [← Option.not_isSome_iff_eq_none]
      exact fun hsome => (isPlace_of_isSome_effectBy? hsome hsearch).not_mem_newline hline
    rw [h.detectBy_eq hne, hnone]
  · have hsearch := isSearchable_iff.mpr ⟨hline, hlength⟩
    have hsome : (effectBy? read ctx.config (Text.trim t)).isSome :=
      isSome_effectBy?_iff.mpr (.inr (.inr (.inr (.inr hsearch))))
    obtain ⟨effect, heffect⟩ := Option.isSome_iff_exists.mp hsome
    exact ⟨effect, (h.detectBy_eq_sideEffect_iff hne).mpr ⟨rfl, heffect⟩⟩
  · have hne : Text.trim t ≠ [] := List.ne_nil_of_length_pos (Nat.zero_lt_of_lt hlength)
    obtain ⟨-, heffect⟩ := (h.detectBy_eq_sideEffect_iff hne).mp heffect
    refine isPlace_of_isSome_effectBy? (Option.isSome_of_eq_some heffect) fun hsearch => ?_
    exact Nat.not_le.mpr hlength (isSearchable_iff.mp hsearch).2

/-- A text of several lines that begins like an address is declined, and the path in front of white
space is opened. -/
theorem detect_path_with_lines :
    let ctx : Context := ⟨{}, .standard, ⟨2026, 10, 19, by decide⟩, .whole, []⟩
    IsAsked ctx ∧ detect ctx "https://a.b\nc".toList = .noMatch ∧
      ∃ shown effect, detect ctx " ~/notes \n".toList = .sideEffect shown effect ∧
        effect.kind = .openPath := by
  intro ctx
  have hasked : IsAsked ctx := ⟨rfl, rfl, rfl⟩
  obtain ⟨hlines, hallLines⟩ := detectBy_accepts hasked "https://a.b\nc".toList
  obtain ⟨hpath, hallPath⟩ := detectBy_accepts hasked " ~/notes \n".toList
  rw [hlines, hpath]
  refine ⟨hasked, (hallLines readWebAddress).1 (by decide), ?_⟩
  have hread : ¬ hasKnownEnding (Text.trim " ~/notes \n".toList) := by decide +kernel
  have hurl : ¬ url.matchesAll (Text.trim " ~/notes \n".toList) := by decide +kernel
  exact (hallPath readWebAddress).2.2.2.mpr
    ⟨by decide +kernel, by decide +kernel, fun h => hread h.1, fun h => hurl h.1⟩

end Navigation

end Snippet
