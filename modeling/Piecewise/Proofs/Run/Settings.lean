import Mathlib.Data.List.Basic
import Piecewise.Run.Config

/-!
# Command lines as settings

A command line says one setting after the other: a flag with its value, a flag alone or a file.
What it gives is told by the files in their order, by the last entry and by which flags there are,
however these are mixed. The first word that starts no setting ends the reading, and what is said of
it does not hang on what comes behind.
-/

namespace Piecewise

namespace Config

/-- A word that names a file: it does not start with two dashes and does not ask for help. -/
structure FileWord where
  word : String
  undashed : ¬ "--".toList <+: word.toList
  ne_help : word ≠ "-h"

/-- One thing that a command line says. -/
inductive Setting
  | entry (name : String)
  | noPrelude
  | structuralEquality
  | file (name : FileWord)

namespace Setting

/-- How a setting is written. The name of an entry is any word. -/
def words : Setting → List String
  | entry name => ["--entry", name]
  | noPrelude => ["--no-prelude"]
  | structuralEquality => ["--structural-equality"]
  | file name => [name.word]

def entry? : Setting → Option String
  | entry name => some name
  | _ => none

def file? : Setting → Option String
  | file name => some name.word
  | _ => none

def apply (c : Config) : Setting → Config
  | entry name => { c with entry := name }
  | noPrelude => { c with prelude := false }
  | structuralEquality => { c with equality := .structural }
  | file name => { c with files := c.files ++ [name.word] }

end Setting

/-- The words of settings, one setting after the other. -/
def spelled (settings : List Setting) : List String := settings.flatMap Setting.words

def filesOf (settings : List Setting) : List String := settings.filterMap Setting.file?

/-- What options say when they are what settings say. -/
structure Says (settings : List Setting) (c : Config) : Prop where
  files : c.files = filesOf settings
  entry : c.entry = (settings.filterMap Setting.entry?).getLast?.getD "main"
  prelude : c.prelude = false ↔ .noPrelude ∈ settings
  equality : c.equality = .structural ↔ .structuralEquality ∈ settings

def StartsNone (word : String) : Prop := ∀ setting : Setting, setting.words.head? ≠ some word

/-- What is said of a word that starts no setting. -/
def refusal (word : String) : ConfigError :=
  if word = "-h" ∨ word = "--help" then .helpRequested else .unknownFlag word

/-- What a command line ends with behind its settings: nothing, a word that starts no setting and
whatever follows it, or the flag that lacks its value. -/
inductive Ending : List String → Prop
  | done : Ending []
  | offence {word : String} (rest : List String) (h : StartsNone word) : Ending (word :: rest)
  | valueless : Ending ["--entry"]

variable {c : Config} {word : String} {settings : List Setting} {rest : List String}

section Words

theorem looksLikeFlag_iff : looksLikeFlag word = true ↔ "--".toList <+: word.toList :=
  List.isPrefixOf_iff_prefix

/-- A word other than the flag with a value is read by itself. -/
theorem read_cons (h : word ≠ "--entry") : c.read (word :: rest) =
    if word = "--no-prelude" then ({ c with prelude := false } : Config).read rest
    else if word = "--structural-equality" then
      ({ c with equality := .structural } : Config).read rest
    else if word = "-h" || word = "--help" then .error .helpRequested
    else if looksLikeFlag word then .error (.unknownFlag word)
    else ({ c with files := c.files ++ [word] } : Config).read rest :=
  read.eq_4 c word rest (fun hword _ => h hword) fun _ _ hword _ => h hword

theorem ne_entry (hlast : word = "--entry" → rest = [] → False)
    (hvalue : ∀ name others, word = "--entry" → rest = name :: others → False) :
    word ≠ "--entry" := by
  intro hword
  cases rest with
  | nil => exact hlast hword rfl
  | cons name others => exact hvalue name others hword rfl

/-- A file is no word that starts with two dashes. -/
theorem FileWord.ne_flag (file : FileWord) (hflag : "--".toList <+: word.toList) :
    file.word ≠ word := by
  rintro rfl
  exact file.undashed hflag

/-- A word starts no setting where it is none of the flags and names no file. -/
theorem startsNone_iff : StartsNone word ↔ word ≠ "--entry" ∧ word ≠ "--no-prelude" ∧
    word ≠ "--structural-equality" ∧ ("--".toList <+: word.toList ∨ word = "-h") := by
  constructor
  · intro h
    have hne : ∀ (setting : Setting) {first : String}, setting.words.head? = some first →
        word ≠ first := by
      rintro setting first hfirst rfl
      exact h setting hfirst
    refine ⟨hne (.entry "main") rfl, hne .noPrelude rfl, hne .structuralEquality rfl, ?_⟩
    by_contra hfile
    obtain ⟨hundashed, hhelp⟩ := not_or.mp hfile
    exact h (.file ⟨word, hundashed, hhelp⟩) rfl
  · rintro ⟨hentry, hprelude, hequality, hflag⟩ setting hfirst
    cases setting with
    | entry name => exact hentry (Option.some.inj hfirst).symm
    | noPrelude => exact hprelude (Option.some.inj hfirst).symm
    | structuralEquality => exact hequality (Option.some.inj hfirst).symm
    | file name =>
      cases Option.some.inj hfirst
      exact hflag.elim name.undashed name.ne_help

end Words

section Steps

/-- The words of a setting are read as the setting, whatever follows. -/
theorem read_words (c : Config) (setting : Setting) (rest : List String) :
    c.read (setting.words ++ rest) = (setting.apply c).read rest := by
  cases setting with
  | entry name => exact read.eq_3 c name rest
  | noPrelude =>
    change c.read ("--no-prelude" :: rest) = _
    rw [read_cons (by decide), if_pos rfl]
    rfl
  | structuralEquality =>
    change c.read ("--structural-equality" :: rest) = _
    rw [read_cons (by decide), if_neg (by decide), if_pos rfl]
    rfl
  | file name =>
    have hflag : looksLikeFlag name.word = false := by
      rw [← Bool.not_eq_true, looksLikeFlag_iff]
      exact name.undashed
    have hhelp : name.word ≠ "--help" := name.ne_flag (by decide)
    change c.read (name.word :: rest) = _
    rw [read_cons (name.ne_flag (by decide)), if_neg (name.ne_flag (by decide)),
      if_neg (name.ne_flag (by decide)), hflag]
    simp [name.ne_help, hhelp, Setting.apply]

/-- A word that starts no setting ends the reading. -/
theorem read_of_startsNone (c : Config) (h : StartsNone word) (rest : List String) :
    c.read (word :: rest) = .error (refusal word) := by
  obtain ⟨hentry, hprelude, hequality, hflag⟩ := startsNone_iff.mp h
  rw [read_cons hentry, if_neg hprelude, if_neg hequality, refusal]
  by_cases hhelp : word = "-h" ∨ word = "--help"
  · simp [hhelp]
  · have hdashed : looksLikeFlag word = true :=
      looksLikeFlag_iff.mpr (hflag.resolve_right fun hword => hhelp (Or.inl hword))
    simp [hhelp, hdashed]

end Steps

section Runs

/-- The words of settings are read as the settings in order, whatever follows. -/
theorem read_spelled (c : Config) (settings : List Setting) (rest : List String) :
    c.read (spelled settings ++ rest) = (settings.foldl Setting.apply c).read rest := by
  induction settings generalizing c with
  | nil => rfl
  | cons setting settings ih =>
    rw [spelled, List.flatMap_cons, List.append_assoc, read_words]
    exact ih (setting.apply c)

theorem files_foldl (c : Config) (settings : List Setting) :
    (settings.foldl Setting.apply c).files = c.files ++ filesOf settings := by
  induction settings generalizing c with
  | nil => simp [filesOf]
  | cons setting settings ih =>
    rw [List.foldl_cons, ih]
    cases setting <;> simp [filesOf, Setting.apply, Setting.file?, List.filterMap_cons]

/-- Of several entries the last one counts. -/
theorem entry_foldl (c : Config) (settings : List Setting) :
    (settings.foldl Setting.apply c).entry =
      (settings.filterMap Setting.entry?).getLast?.getD c.entry := by
  induction settings generalizing c with
  | nil => rfl
  | cons setting settings ih =>
    rw [List.foldl_cons, ih]
    cases setting <;> simp [Setting.apply, Setting.entry?, List.getLast?_cons]

theorem prelude_foldl (c : Config) (settings : List Setting) :
    (settings.foldl Setting.apply c).prelude = false ↔
      c.prelude = false ∨ .noPrelude ∈ settings := by
  induction settings generalizing c with
  | nil => simp
  | cons setting settings ih =>
    rw [List.foldl_cons, ih]
    cases setting <;> simp [Setting.apply]

theorem equality_foldl (c : Config) (settings : List Setting) :
    (settings.foldl Setting.apply c).equality = .structural ↔
      c.equality = .structural ∨ .structuralEquality ∈ settings := by
  induction settings generalizing c with
  | nil => simp
  | cons setting settings ih =>
    rw [List.foldl_cons, ih]
    cases setting <;> simp [Setting.apply]

/-- Where nothing is said, the options are as they are initially. -/
theorem says_foldl (settings : List Setting) :
    Says settings (settings.foldl Setting.apply initial) where
  files := files_foldl initial settings
  entry := entry_foldl initial settings
  prelude := (prelude_foldl initial settings).trans (by simp [initial])
  equality := (equality_foldl initial settings).trans (by simp [initial])

/-- A setting in front of a line that is settings with an ending. -/
theorem exists_spelled_of_words {line : List String} (setting : Setting)
    (h : ∃ settings ending, Ending ending ∧ line = spelled settings ++ ending) :
    ∃ settings ending, Ending ending ∧ setting.words ++ line = spelled settings ++ ending := by
  obtain ⟨settings, ending, hending, rfl⟩ := h
  refine ⟨setting :: settings, ending, hending, ?_⟩
  rw [spelled, spelled, List.flatMap_cons, List.append_assoc]

/-- Every command line is settings with an ending behind them. -/
theorem exists_spelled (line : List String) :
    ∃ settings ending, Ending ending ∧ line = spelled settings ++ ending := by
  obtain ⟨c⟩ : Nonempty Config := ⟨initial⟩
  induction c, line using read.induct with
  | case1 => exact ⟨[], [], .done, rfl⟩
  | case2 => exact ⟨[], _, .valueless, rfl⟩
  | case3 c name rest ih => exact exists_spelled_of_words (.entry name) ih
  | case4 c rest _ _ ih => exact exists_spelled_of_words .noPrelude ih
  | case5 c rest _ _ _ ih => exact exists_spelled_of_words .structuralEquality ih
  | case6 c word rest h₁ h₂ hprelude hequality hhelp =>
    have hstarts : StartsNone word := by
      refine startsNone_iff.mpr ⟨ne_entry h₁ h₂, hprelude, hequality, ?_⟩
      rcases (by simpa using hhelp : word = "-h" ∨ word = "--help") with rfl | rfl
      · exact Or.inr rfl
      · exact Or.inl (by decide)
    exact ⟨[], _, .offence rest hstarts, rfl⟩
  | case7 c word rest h₁ h₂ hprelude hequality _ hflag =>
    have hstarts : StartsNone word := startsNone_iff.mpr
      ⟨ne_entry h₁ h₂, hprelude, hequality, Or.inl (looksLikeFlag_iff.mp hflag)⟩
    exact ⟨[], _, .offence rest hstarts, rfl⟩
  | case8 c word rest _ _ _ _ hhelp hflag ih =>
    have hfile : ¬ (word = "-h" ∨ word = "--help") := by simpa using hhelp
    exact exists_spelled_of_words (.file ⟨word, fun h => hflag (looksLikeFlag_iff.mpr h),
      fun h => hfile (Or.inl h)⟩) ih

end Runs

theorem ofWords_of_read_ok {line : List String} (h : initial.read line = .ok c) :
    ofWords line = if c.files.isEmpty then .error .noFiles else .ok c := by
  rw [ofWords, h]
  rfl

theorem ofWords_of_read_error {line : List String} {e : ConfigError}
    (h : initial.read line = .error e) : ofWords line = .error e := by
  rw [ofWords, h]
  rfl

/-- Flags and files may be mixed in any order. A command line of settings gives what the settings
say if some file is among them, and the fault that there is none if not. Behind settings, a word
that starts none is refused whatever follows it, and a flag without its value is told as such. Every
command line is of one of these forms. -/
theorem ofWords_of_settings (settings : List Setting) :
    (filesOf settings ≠ [] → ∃ c, ofWords (spelled settings) = .ok c ∧ Says settings c) ∧
    (filesOf settings = [] → ofWords (spelled settings) = .error .noFiles) ∧
    (∀ word rest, StartsNone word →
      ofWords (spelled settings ++ word :: rest) = .error (refusal word)) ∧
    ofWords (spelled settings ++ ["--entry"]) = .error (.missingValue "--entry") ∧
    ∀ line, ∃ settings ending, Ending ending ∧ line = spelled settings ++ ending := by
  have hwords := says_foldl settings
  have hread := read_spelled initial settings
  refine ⟨fun hfiles => ⟨_, ?_, hwords⟩, fun hfiles => ?_, fun word rest hword => ?_, ?_,
    exists_spelled⟩
  · rw [← hwords.files] at hfiles
    rw [ofWords_of_read_ok ((List.append_nil _ ▸ hread []).trans (read.eq_1 _)), if_neg]
    simpa using hfiles
  · rw [← hwords.files] at hfiles
    rw [ofWords_of_read_ok ((List.append_nil _ ▸ hread []).trans (read.eq_1 _)), if_pos]
    simpa using hfiles
  · exact ofWords_of_read_error ((hread (word :: rest)).trans (read_of_startsNone _ hword rest))
  · exact ofWords_of_read_error ((hread ["--entry"]).trans (read.eq_2 _))

section Mixed

/-- Two files with two entries and a flag between them; the first entry is named like a flag. -/
def mixedSettings : List Setting :=
  [.file ⟨"a.df", by decide, by decide⟩, .entry "--help", .noPrelude, .entry "start",
    .file ⟨"-b", by decide, by decide⟩]

/-- Mixed settings are read as such; refused are a flag that is not known behind them, whatever
follows it, and settings without a file. -/
theorem ofWords_of_settings_mixed :
    ofWords ["a.df", "--entry", "--help", "--no-prelude", "--entry", "start", "-b"] =
        .ok ⟨"start", false, .identityChecked, ["a.df", "-b"]⟩ ∧
      ofWords ["a.df", "--entry", "--help", "--no-prelude", "--entry", "start", "-b", "--fast",
        "-h"] = .error (.unknownFlag "--fast") ∧
      ofWords ["--entry", "a.df"] = .error .noFiles := by
  obtain ⟨hfiles, _, hrefused, _⟩ := ofWords_of_settings mixedSettings
  obtain ⟨_, hnone, _⟩ := ofWords_of_settings [.entry "a.df"]
  refine ⟨?_, hrefused "--fast" ["-h"] (startsNone_iff.mpr (by decide)), hnone rfl⟩
  obtain ⟨c, hc, hwords⟩ := hfiles (by decide)
  have hentry : c.entry = "start" := hwords.entry
  have hprelude : c.prelude = false := hwords.prelude.mpr (by simp [mixedSettings])
  have hequality : c.equality = .identityChecked := by
    cases h : c.equality with
    | identityChecked => rfl
    | structural => exact absurd (hwords.equality.mp h) (by simp [mixedSettings])
  have hnames : c.files = ["a.df", "-b"] := hwords.files
  obtain ⟨entry, prelude, equality, files⟩ := c
  subst hentry hprelude hequality hnames
  exact hc

end Mixed

end Config

end Piecewise
