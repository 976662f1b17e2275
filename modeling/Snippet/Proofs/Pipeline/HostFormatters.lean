import Snippet.Proofs.Config.Validity
import Snippet.Proofs.Detection.Construction
import Snippet.Proofs.Detection.FormatterStore
import Snippet.Proofs.Detection.Standard

/-!
# Formatters of the host in the pipeline

A pipeline can be built over a registry of formatters exactly if the formatters for date ranges and
for arithmetic are stored in it (`withFormatters_eq`), and its detectors with these ids run the ones
that are stored. With the finite map that a sequence of changes leaves behind, this is
`changes_refine_map`.
-/

namespace Snippet

open FormatterRegistry (Change Starts applyEach accepted lastStored)

/-- The detector declines what the formatter is not for, and else answers with its replacement. -/
def Formatter.IsRunBy (f : Formatter) (d : Detector) : Prop :=
  ∀ ctx t, d.detect ctx t =
    .ok (if f.isCandidate ctx.settings t then .ofOption (f.process ctx.settings t) else .noMatch)

/-- A formatter of short texts that puts an ending behind them. -/
def Formatter.appending (name : String) (ending : Text) : Formatter where
  name := name
  isCandidate _ t := t.length < 20
  process _ t := some (t ++ ending)

namespace Pipeline

variable {config : Config} {formatters : FormatterRegistry} {today : Date} {p : Pipeline}

/-- What a pipeline of a valid configuration is built of. -/
theorem withFormatters_eq (hvalid : config.validate = .ok ()) (formatters : FormatterRegistry)
    (today : Date) :
    withFormatters config formatters today =
      match formatters.get "date_range", formatters.get "arithmetic" with
      | .ok f, .ok g => .ok ⟨config, formatters,
          ⟨(Detector.standard f g).filter fun d => !config.isDisabled d.id⟩, .standard, today⟩
      | .error e, _ => .error (.registry e)
      | _, .error e => .error (.registry e) := by
  rw [withFormatters, hvalid, DetectorRegistry.standard_eq]
  cases formatters.get "date_range" with
  | error e => rfl
  | ok f =>
    cases formatters.get "arithmetic" with
    | error e => rfl
    | ok g => rfl

/-- **A pipeline is built exactly if both formatters are stored**, also where their detectors are
left out. -/
theorem isOk_withFormatters_iff (hvalid : config.validate = .ok ()) (formatters : FormatterRegistry)
    (today : Date) :
    (∃ p, withFormatters config formatters today = .ok p) ↔
      (∃ f, formatters.get "date_range" = .ok f) ∧ ∃ g, formatters.get "arithmetic" = .ok g := by
  rw [withFormatters_eq hvalid]
  cases formatters.get "date_range" <;> cases formatters.get "arithmetic" <;> simp

/-- The detectors of a pipeline that run a formatter run the one that is stored. -/
theorem isRunBy_of_withFormatters (hvalid : config.validate = .ok ())
    (hp : withFormatters config formatters today = .ok p) :
    p.detectors.ids = standardIds.filter (fun id => !config.isDisabled id) ∧
      ∀ d ∈ p.detectors.detectors, d.id = "date_range" ∨ d.id = "arithmetic" →
        ∃ f, formatters.get d.id = .ok f ∧ f.IsRunBy d := by
  obtain ⟨⟨f, hf⟩, g, hg⟩ := (isOk_withFormatters_iff hvalid formatters today).mp ⟨p, hp⟩
  rw [withFormatters_eq hvalid, hf, hg] at hp
  cases hp
  refine ⟨?_, fun d hd hid => ?_⟩
  · rw [DetectorRegistry.ids, ← Detector.ids_standard f g, List.filter_map]
    rfl
  · have hd := (List.mem_filter.mp hd).1
    simp only [Detector.standard, List.mem_cons, List.not_mem_nil, or_false] at hd
    rcases hd with rfl | rfl | rfl | rfl | rfl | rfl | rfl | rfl
    · exact ⟨f, hf, fun _ _ => rfl⟩
    case inr.inr.inr.inr.inl => exact ⟨g, hg, fun _ _ => rfl⟩
    all_goals exact absurd hid (by decide)

/-- **A registry of formatters is a finite map, and pipelines run what is stored in it.** After any
sequence of changes from the empty or the standard registry: under each name is the formatter of the
last change that was not refused, and the names are listed in increasing order. A formatter is added
exactly if its name is neither blank nor stored, and exchanged exactly if its name is stored; a
refusal leaves the registry as it was. A pipeline of a valid configuration is built over the
registry exactly if both formatters are stored, and then its detectors with these ids run them. -/
theorem changes_refine_map {start : FormatterRegistry} {initial : List Formatter}
    (hstart : Starts start initial) (changes : List Change) :
    ∃ answers r, (applyEach changes).run start = (answers, r) ∧
      answers.length = changes.length ∧
      -- the finite map
      (∀ name, r.get name =
        match lastStored (initial ++ accepted changes answers) name with
        | some f => .ok f
        | none => .error (.missingFormatter name)) ∧
      r.names.Pairwise (· < ·) ∧
      (∀ name, name ∈ r.names ↔
        (lastStored (initial ++ accepted changes answers) name).isSome) ∧
      -- the next change
      (∀ c : Change, (applyEach (changes ++ [c])).run start =
        (answers ++ [(c.attempt.run r).1], (c.attempt.run r).2)) ∧
      (∀ c : Change, c.attempt.run r =
        match c.refusal? (lastStored (initial ++ accepted changes answers)) with
        | some e => (.error e, r)
        | none => (.ok (), r.store c.formatter)) ∧
      (∀ c : Change, c.apply.run r =
        match c.result r with
        | .ok r' => .ok () r'
        | .error e => .error e r) ∧
      -- the pipelines over the registry
      ∀ config today, config.validate = .ok () →
        ((∃ p, withFormatters config r today = .ok p) ↔
          "date_range" ∈ r.names ∧ "arithmetic" ∈ r.names) ∧
        ∀ p, withFormatters config r today = .ok p →
          p.detectors.ids = standardIds.filter (fun id => !config.isDisabled id) ∧
          ∀ d ∈ p.detectors.detectors, d.id = "date_range" ∨ d.id = "arithmetic" →
            ∃ f, r.get d.id = .ok f ∧ f.IsRunBy d := by
  have hholds := hstart.holds.run_applyEach changes
  have hlength := FormatterRegistry.length_run_applyEach start changes
  have hnext := FormatterRegistry.run_applyEach_concat start changes
  rcases hrun : (applyEach changes).run start with ⟨answers, r⟩
  rw [hrun] at hholds hlength
  simp only [hrun] at hnext
  have hmem : ∀ name, name ∈ r.names ↔ ∃ f, r.get name = .ok f := by
    intro name
    rw [← FormatterRegistry.isSome_find?_iff, hholds.get_eq, hholds.find?_eq]
    cases lastStored _ name <;> simp
  refine ⟨answers, r, rfl, hlength, hholds.get_eq, List.pairwise_map.mpr hholds.pairwise_names,
    fun name => ?_, hnext, hholds.run_attempt, hholds.run_apply_eq,
    fun config today hvalid => ⟨?_, fun p hp => isRunBy_of_withFormatters hvalid hp⟩⟩
  · rw [← FormatterRegistry.isSome_find?_iff, hholds.find?_eq]
  · rw [isOk_withFormatters_iff hvalid, hmem, hmem]

/-- Beside the standard formatters one is added and the one for arithmetic is exchanged; a blank
name, a name that is stored and one that is missing are refused. The detector for arithmetic runs
the formatter that is there in the end. -/
theorem changes_beside_standard :
    let changes : List Change := [.register (.appending "loud" ['!']),
      .replace (.appending "arithmetic" ['?']), .register (.appending " " []),
      .register (.appending "arithmetic" []), .replace (.appending "quiet" []),
      .replace (.appending "arithmetic" ['!'])]
    let config : Config := { disabled := ["date_range"] }
    ∃ start initial r p, Starts start initial ∧ config.validate = .ok () ∧
      (applyEach changes).run start = ([.ok (), .ok (), .error .emptyId,
        .error (.duplicateId "arithmetic"), .error (.missingFormatter "quiet"), .ok ()], r) ∧
      r.names = ["arithmetic", "date_range", "loud"] ∧
      withFormatters config r ⟨2026, 10, 19, by decide⟩ = .ok p ∧
      ∃ d ∈ p.detectors.detectors, d.id = "arithmetic" ∧
        (Formatter.appending "arithmetic" ['!']).IsRunBy d := by
  intro changes config
  have hstart : Starts _ _ := .standard FormatterRegistry.standard_eq
  have hvalid : config.validate = .ok () :=
    Config.validate_eq_ok_iff.mpr (Config.isValid_default (by decide))
  obtain ⟨answers, r, hrun, -, hget, -, -, -, -, -, hpipeline⟩ :=
    changes_refine_map hstart changes
  have hstored : (applyEach changes).run ⟨[Arithmetic.formatter, DateRange.formatter]⟩ =
      ([.ok (), .ok (), .error .emptyId, .error (.duplicateId "arithmetic"),
        .error (.missingFormatter "quiet"), .ok ()],
      ⟨[.appending "arithmetic" ['!'], DateRange.formatter, .appending "loud" ['!']]⟩) := by
    rfl
  obtain ⟨rfl, rfl⟩ := Prod.mk.inj (hrun.symm.trans hstored)
  obtain ⟨hbuilt, hruns⟩ := hpipeline config ⟨2026, 10, 19, by decide⟩ hvalid
  obtain ⟨p, hp⟩ := hbuilt.mpr (by decide)
  obtain ⟨hids, hdetectors⟩ := hruns p hp
  have hmem : "arithmetic" ∈ p.detectors.ids := by
    rw [hids]
    decide
  obtain ⟨d, hd, hid⟩ := List.mem_map.mp hmem
  obtain ⟨f, hf, hrunBy⟩ := hdetectors d hd (.inr hid)
  have hloud : f = .appending "arithmetic" ['!'] := by
    rw [hid] at hf
    exact (Except.ok.inj hf).symm
  exact ⟨_, _, _, p, hstart, hvalid, hrun, rfl, hp, d, hd, hid, hloud ▸ hrunBy⟩

end Pipeline

end Snippet
