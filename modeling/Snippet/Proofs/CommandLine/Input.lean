import Snippet.CommandLine.Respond
import Snippet.Proofs.Detection.Ending
import Snippet.Proofs.Pipeline.HostFormatters
import Snippet.Proofs.Pipeline.Stability

/-!
# Arguments and input

A text can be given by arguments behind a double dash, which are taken as they are
(`Arguments.readAll_append`), or on a line of the input. The line feed at the end of the line is white
space: it changes neither the seed nor what the pipeline makes of the text, and comes back at the end
of the output (`Pipeline.process_append_lineFeed`). The response prints one line feed there in both
cases, so that both calls respond alike (`Arguments.respond_words_eq_respond_input`).
-/

namespace Snippet

open Text

/-! ## Arguments behind a double dash -/

namespace Arguments

variable {options : List Text}

theorem eq_separator_of_shapeOf {t : Text} (h : shapeOf t = .separator) : t = ['-', '-'] := by
  unfold shapeOf at h
  split at h
  · rfl
  · split at h <;> cases h
  · cases h
  · cases h

theorem map_bind {α β : Type} (x : Except Command α) (f : α → Except Command β) (g : β → β) :
    (x >>= f).map g = x >>= fun y => (f y).map g := by
  cases x <;> rfl

/-- **Whatever stands behind a double dash is text**, and the options are read as before. -/
theorem readAll_append (a : Arguments) (hsep : "--".toList ∉ options) (words : List Text) :
    a.readAll (options ++ "--".toList :: words) =
      (a.readAll options).map (·.addWords words) := by
  induction a, options using readAll.induct with
  | case1 a => rfl
  | case2 a t ts hshape =>
    exact absurd (eq_separator_of_shapeOf hshape ▸ List.mem_cons_self ..) hsep
  | case3 a t ts word hshape ih =>
    rw [List.cons_append, readAll, readAll]
    simp only [hshape]
    exact ih fun hmem => hsep (.tail t hmem)
  | case4 a t ts letters hshape ih =>
    have hrest := fun a => ih a fun hmem => hsep (.tail t hmem)
    rw [List.cons_append, readAll, readAll]
    simp only [hshape, map_bind, hrest]
  | case5 a t ts name value hshape s hswitch hvalue =>
    rw [List.cons_append, readAll, readAll]
    simp only [hshape, hswitch, if_pos hvalue]
    rfl
  | case6 a t ts name value hshape s hswitch hvalue ih =>
    have hrest := fun a => ih a fun hmem => hsep (.tail t hmem)
    rw [List.cons_append, readAll, readAll]
    simp only [hshape, hswitch, if_neg hvalue, map_bind, hrest]
  | case7 a t name s hsetting hswitch value ts hshape ih =>
    have hrest := fun a => ih a fun hmem => hsep (.tail t hmem)
    rw [List.cons_append, readAll, readAll]
    simp only [hshape, hswitch, hsetting, map_bind, hrest]
  | case8 a t name s hsetting hswitch next rest value hnext hshape ih =>
    -- the value of the option is the next argument
    have hrest := fun a => ih a fun hmem => hsep (.tail t (.tail next hmem))
    rw [List.cons_append, List.cons_append, readAll, readAll]
    simp only [hshape, hswitch, hsetting, hnext, map_bind, hrest]
  | case9 a t name s hsetting hswitch next rest hnext hshape =>
    rw [List.cons_append, List.cons_append, readAll, readAll]
    simp only [hshape, hswitch, hsetting]
    rfl
  | case10 a t name s hsetting hswitch hshape =>
    -- the double dash is no value
    rw [List.singleton_append, readAll, readAll]
    simp only [hshape, hswitch, hsetting]
    rfl
  | case11 a t ts name value hshape hsetting hswitch =>
    rw [List.cons_append, readAll, readAll]
    simp only [hshape, hswitch, hsetting]
    rfl

end Arguments

/-! ## A line feed behind a text -/

theorem Text.isBlank_lineFeed : isBlank ['\n'] := by decide

theorem Seed.ofText_append_lineFeed (t : Text) : ofText (t ++ ['\n']) = ofText t := by
  rw [ofText, ofText, trimEnd_append_right isBlank_lineFeed]

namespace Pipeline

variable {p : Pipeline} {raw t : Text} {config : Config} {today : Date}

/-- **A line feed behind a text comes back behind the text of the output**, and the action is the
same. -/
theorem process_append_lineFeed (p : Pipeline) (t : Text) :
    (p.process (t ++ ['\n'])).text = (p.process t).text ++ ['\n'] ∧
      (p.process (t ++ ['\n'])).effect = (p.process t).effect := by
  have hout := p.process_eq_between t (show isBlank [] from rfl) isBlank_lineFeed
  rw [List.nil_append] at hout
  rw [hout]
  exact ⟨rfl, rfl⟩

/-- What was tried ends where the trimmed text does. -/
theorem Replaces.endsSolid_tried {first : MatchRecord} (h : p.Replaces raw first) :
    EndsSolid (p.tried raw) := by
  have htrim : EndsSolid (trim raw) := endsSolid_trim (mt trim_eq_nil_iff.mp h.not_isBlank)
  unfold tried
  split
  · refine endsSolid_of_getLast? (Seed.body_ne_nil h.not_isBlank) ?_
    rw [Seed.getLast?_body h.not_isBlank]
    exact htrim.isWhite_getLast?
  · exact htrim

/-- **The output of a text that does not end with a line feed does not end with one either.** -/
theorem IsStandard.getLast?_text (hp : p.IsStandard config today) (htemplate : config.template = none)
    (ht : t.getLast? ≠ some '\n') : (p.process t).text.getLast? ≠ some '\n' := by
  rcases p.untouched_or_replaces t with h | ⟨first, h⟩
  · rwa [h.text_eq]
  · rw [h.text_eq]
    by_cases htrailing : trailingWhite t = []
    · obtain ⟨scope, hscope⟩ := h.exists_scope
      have hfirst := hp.endsSolid_of_head? htemplate h.endsSolid_tried hscope
      have hsolid := (hfirst.append (p.keptLead t)).append (leadingWhite t)
      rw [htrailing, List.append_nil]
      exact fun hlast => absurd (hsolid.isWhite_getLast? '\n' hlast) (by decide)
    · rw [List.getLast?_append_of_ne_nil _ htrailing]
      rwa [← trimEnd_append_trailingWhite t, List.getLast?_append_of_ne_nil _ htrailing] at ht

/-- A valid configuration has a pipeline. -/
theorem exists_standard (hvalid : config.validate = .ok ()) (today : Date) :
    ∃ p, standard config today = .ok p := by
  rw [standard, FormatterRegistry.standard_eq]
  change ∃ p, withFormatters config _ today = .ok p
  rw [withFormatters_eq hvalid]
  exact ⟨_, rfl⟩

end Pipeline

/-! ## Two ways to give a text -/

namespace Arguments

variable {a : Arguments} {options words : List Text} {t : Text}

/-- The bytes of a text, on a line of its own. -/
def lineOf (t : Text) : ByteArray := (String.ofList (t ++ ['\n'])).toUTF8

/-- The configuration file that a call asks for, where the files are given by their paths. -/
def configFile (a : Arguments) (environment : Option Text) (files : Text → Option ByteArray) :
    Option (Text × Option ByteArray) :=
  (a.configPath? environment).map fun path => (path, files path)

theorem text?_lineOf (h : a.words = []) (t : Text) : a.text? (lineOf t) = some (t ++ ['\n']) := by
  have hread : String.fromUTF8? (lineOf t) = some (String.ofList (t ++ ['\n'])) :=
    dif_pos (String.ofList (t ++ ['\n'])).isValidUTF8
  rw [text?, h, hread]
  simp

theorem text?_of_words (h : a.words ≠ []) (input : ByteArray) :
    a.text? input = some (join [' '] a.words) := by
  rw [text?, if_neg (by simpa using h)]

/-- The response of a call, once its configuration, pipeline and text are known. -/
theorem respond_eq {file : Option (Text × Option ByteArray)} {config : Config} {today : Date}
    {p : Pipeline} {input : ByteArray} (hconfig : configuration file = .ok config)
    (htoday : a.today = some today) (hp : Pipeline.standard config today = .ok p)
    (ht : a.text? input = some t) (now : Date) : a.respond file input now = a.respondTo p t := by
  simp only [respond, hconfig, htoday, Option.getD_some, hp, ht]

/-- The response to a text, in plain mode. -/
theorem respondTo_of_plain {p : Pipeline} {config : Config} {today : Date}
    (hp : p.IsStandard config today) (htemplate : config.template = none) (hseed : a.seed = false)
    (hjson : a.json = false) (ht : t.getLast? ≠ some '\n') :
    a.respondTo p t = ⟨0, (p.process t).text ++ ['\n'],
      ((p.process t).effect.map SideEffect.message).toList⟩ := by
  simp only [respondTo, hseed, hjson, Bool.false_eq_true, if_false, Output.printed,
    if_neg (hp.getLast?_text htemplate ht)]

/-- A text and its line have the same response. -/
theorem respondTo_append_lineFeed {p : Pipeline} {config : Config} {today : Date}
    (hp : p.IsStandard config today) (htemplate : config.template = none)
    (hmode : a.seed = true ∨ a.json = false) (ht : t.getLast? ≠ some '\n') :
    a.respondTo p (t ++ ['\n']) = a.respondTo p t := by
  cases hseed : a.seed with
  | true => simp only [respondTo, hseed, if_true, Seed.ofText_append_lineFeed]
  | false =>
    have hjson : a.json = false := hmode.resolve_left (by simp [hseed])
    obtain ⟨htext, heffect⟩ := p.process_append_lineFeed t
    rw [respondTo_of_plain hp htemplate hseed hjson ht]
    simp only [respondTo, hseed, hjson, Bool.false_eq_true, if_false, Output.printed, htext, heffect,
      List.getLast?_concat, if_true]

/-- **A text has the same response as arguments and as a line of the input.** The words behind a double
dash are joined to the text, which must not end with a line feed; a valid configuration without a
template, the options of the call and its date are the same. In plain mode the response is the text of
the output with a line feed behind it. -/
theorem respond_words_eq_respond_input {environment : Option Text} {files : Text → Option ByteArray}
    {config : Config} {today : Date} (hoptions : readAll {} options = .ok a)
    (hsep : "--".toList ∉ options) (hnone : a.words = []) (hwords : words ≠ [])
    (ht : (join [' '] words).getLast? ≠ some '\n') (hmode : a.seed = true ∨ a.json = false)
    (htoday : a.today = some today)
    (hconfig : configuration (a.configFile environment files) = .ok config)
    (hvalid : config.validate = .ok ()) (htemplate : config.template = none) :
    let b := a.addWords words
    Command.ofArguments options = .run a ∧
      Command.ofArguments (options ++ "--".toList :: words) = .run b ∧
      ∃ p, Pipeline.standard config today = .ok p ∧
        (∀ input now now', b.respond (b.configFile environment files) input now =
          a.respond (a.configFile environment files) (lineOf (join [' '] words)) now') ∧
        (a.seed = false → ∀ input now, b.respond (b.configFile environment files) input now =
          ⟨0, (p.process (join [' '] words)).text ++ ['\n'],
            ((p.process (join [' '] words)).effect.map SideEffect.message).toList⟩) := by
  intro b
  obtain ⟨p, hp⟩ := Pipeline.exists_standard hvalid today
  have hstandard := Pipeline.isStandard_of_standard hp
  have hargument : ∀ input now, b.respond (b.configFile environment files) input now =
      a.respondTo p (join [' '] words) := by
    intro input now
    have hbwords : b.words = words := by rw [show b.words = a.words ++ words from rfl, hnone]; rfl
    have htext : b.text? input = some (join [' '] words) := by
      rw [text?_of_words (by rwa [hbwords]), hbwords]
    exact respond_eq (a := b) hconfig htoday hp htext now
  refine ⟨?_, ?_, p, hp, fun input now now' => ?_, fun hseed input now => ?_⟩
  · rw [Command.ofArguments, hoptions]
  · rw [Command.ofArguments, readAll_append _ hsep, hoptions]
    rfl
  · rw [hargument, respond_eq hconfig htoday hp (text?_lineOf hnone _) now',
      respondTo_append_lineFeed hstandard htemplate hmode ht]
  · have hjson : a.json = false := hmode.resolve_left (by simp [hseed])
    rw [hargument, respondTo_of_plain hstandard htemplate hseed hjson ht]

/-- A sum behind its lead, in two words or on a line. -/
theorem respond_sum_eq_respond_line :
    let a : Arguments := { today := some ⟨2026, 10, 19, by decide⟩ }
    let b : Arguments := { a with words := ["Total:".toList, "10+5".toList] }
    Command.ofArguments ["--today".toList, "2026-10-19".toList] = .run a ∧
      Command.ofArguments ["--today".toList, "2026-10-19".toList, "--".toList, "Total:".toList,
        "10+5".toList] = .run b ∧
      ∀ input now now', b.respond none input now = ⟨0, "Total: 15\n".toList, []⟩ ∧
        a.respond none (lineOf "Total: 10+5".toList) now' = ⟨0, "Total: 15\n".toList, []⟩ := by
  intro a b
  have hrun : (Pipeline.standard {} ⟨2026, 10, 19, by decide⟩).toOption.any fun p =>
      p.process "Total: 10+5".toList ==
        ⟨"Total: 15".toList, true, some "arithmetic", none, [⟨"arithmetic", "15".toList⟩]⟩ := by
    decide +kernel
  obtain ⟨q, hq, hout⟩ := Pipeline.exists_of_any_standard hrun
  rw [beq_iff_eq] at hout
  obtain ⟨ha, hb, p, hp, halike, hplain⟩ := @respond_words_eq_respond_input a
    ["--today".toList, "2026-10-19".toList] ["Total:".toList, "10+5".toList] none (fun _ => none) {}
    ⟨2026, 10, 19, by decide⟩ rfl (by decide) rfl (by decide) (by decide) (.inr rfl) rfl rfl rfl rfl
  obtain rfl : q = p := Except.ok.inj (hq.symm.trans hp)
  have hprinted : ∀ input now, b.respond none input now = ⟨0, "Total: 15\n".toList, []⟩ := by
    intro input now
    refine (hplain rfl input now).trans ?_
    rw [show join [' '] _ = "Total: 10+5".toList from rfl, hout]
    rfl
  exact ⟨ha, hb, fun input now now' =>
    ⟨hprinted input now, (halike input now now').symm.trans (hprinted input now)⟩⟩

end Arguments

end Snippet
