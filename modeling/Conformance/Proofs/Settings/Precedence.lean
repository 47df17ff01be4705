import Conformance.Settings.Layers

/-!
Which layer a setting comes from. Each option is the one of the command line if it is given there,
or else that of the settings file, or else the default. Every layer refuses a timeout of zero of its
own, so that a file with such a timeout is refused even where the command line gives another one.
But for this, a value in the file that the command line overrides makes no difference.
-/
namespace Conformance

/-- What a settings file says that leaves everything out. -/
def FileSettings.none : FileSettings where
  labelFilter := .none
  timeout := .none
  format := .none
  output := .none
  catalog := .none
  tags := .none
  handleSignals := .none
  logLevel := .none
  acceptedTaints := .none

namespace Settings

open CommandLine

section Layers

/-- Every option from the first layer that gives it. -/
def layered (o : RunOptions) (f : FileSettings) : Settings where
  labelFilter := (o.labelFilter <|> f.labelFilter).getD default.labelFilter
  timeout := (o.timeout <|> f.timeout).getD default.timeout
  format := (o.format <|> f.format).getD default.format
  output := o.output <|> f.output <|> default.output
  catalog := o.catalog <|> f.catalog <|> default.catalog
  tags := f.tags.getD default.tags
  handleSignals := f.handleSignals.getD default.handleSignals
  logLevel := f.logLevel <|> default.logLevel
  acceptedTaints := f.acceptedTaints.getD default.acceptedTaints
  noColor := o.noColor
  verbose := o.verbose

/-- One of the layers gives a timeout of zero, whether or not it takes effect. -/
def GivesZero (o : RunOptions) (f : FileSettings) : Prop := o.timeout = some 0 ∨ f.timeout = some 0

instance (o : RunOptions) (f : FileSettings) : Decidable (GivesZero o f) :=
  inferInstanceAs (Decidable (_ ∨ _))

/-- The files give the same wherever the command line gives nothing. -/
structure SameBeneath (o : RunOptions) (f f' : FileSettings) : Prop where
  labelFilter : o.labelFilter = .none → f.labelFilter = f'.labelFilter
  timeout : o.timeout = .none → f.timeout = f'.timeout
  format : o.format = .none → f.format = f'.format
  output : o.output = .none → f.output = f'.output
  catalog : o.catalog = .none → f.catalog = f'.catalog
  tags : f.tags = f'.tags
  handleSignals : f.handleSignals = f'.handleSignals
  logLevel : f.logLevel = f'.logLevel
  acceptedTaints : f.acceptedTaints = f'.acceptedTaints

variable {o : RunOptions} {f f' : FileSettings}

theorem getD_orElse {α : Type} (upper lower : Option α) (fallback : α) :
    (upper <|> lower).getD fallback = upper.getD (lower.getD fallback) := by
  cases upper <;> rfl

theorem orElse_congr {α : Type} {upper lower lower' : Option α}
    (h : upper = .none → lower = lower') : (upper <|> lower) = (upper <|> lower') := by
  cases upper with
  | none => exact h rfl
  | some value => rfl

theorem apply_default (h : f.timeout ≠ some 0) :
    f.apply default = (layered RunOptions.none f, .none) := by
  rw [FileSettings.apply, if_neg h]
  rfl

theorem override_layered (h : o.timeout ≠ some 0) (f : FileSettings) :
    (layered RunOptions.none f).override o = .ok (layered o f) := by
  rw [override, if_neg h]
  simp only [layered, getD_orElse, RunOptions.none, Bool.false_or, Except.ok.injEq]
  rfl

theorem layered_congr (h : SameBeneath o f f') : layered o f = layered o f' := by
  simp only [layered, orElse_congr h.labelFilter, orElse_congr h.timeout, orElse_congr h.format,
    orElse_congr fun hout => congrArg (· <|> default.output) (h.output hout),
    orElse_congr fun hout => congrArg (· <|> default.catalog) (h.catalog hout),
    h.tags, h.handleSignals, h.logLevel, h.acceptedTaints]

theorem ofSources_some (o : RunOptions) (f : FileSettings) : ofSources o (some f) =
    if GivesZero o f then .error .zeroTimeout else .ok (layered o f) := by
  by_cases hfile : f.timeout = some 0
  · have hzero : GivesZero o f := .inr hfile
    simp only [ofSources, FileSettings.apply, if_pos hfile, if_pos hzero]
  · by_cases hline : o.timeout = some 0
    · have hzero : GivesZero o f := .inl hline
      simp only [ofSources, apply_default hfile, override, if_pos hline, if_pos hzero]
    · have hproper : ¬GivesZero o f := not_or.mpr ⟨hline, hfile⟩
      simp only [ofSources, apply_default hfile, override_layered hline, if_neg hproper]

/-- Without a file it is as with an empty one. -/
theorem ofSources_eq (o : RunOptions) (file : Option FileSettings) : ofSources o file =
    if GivesZero o (file.getD .none) then .error .zeroTimeout
    else .ok (layered o (file.getD .none)) := by
  cases file with
  | some f => exact ofSources_some o f
  | none => exact (ofSources_some o .none)

end Layers

section Whole

variable {o : RunOptions} {file file' : Option FileSettings}

theorem ofSources_error_iff {fault : SettingsFault} : ofSources o file = .error fault ↔
    fault = .zeroTimeout ∧ GivesZero o (file.getD .none) := by
  rw [ofSources_eq]
  split
  · rename_i hzero
    exact ⟨fun h => ⟨(Except.error.inj h).symm, hzero⟩, fun h => congrArg _ h.1.symm⟩
  · rename_i hproper
    exact ⟨nofun, fun h => absurd h.2 hproper⟩

theorem ofSources_ok_iff {s : Settings} : ofSources o file = .ok s ↔
    ¬GivesZero o (file.getD .none) ∧ s = layered o (file.getD .none) := by
  rw [ofSources_eq]
  split
  · rename_i hzero
    exact ⟨nofun, fun h => absurd hzero h.1⟩
  · rename_i hproper
    exact ⟨fun h => ⟨hproper, (Except.ok.inj h).symm⟩, fun h => congrArg _ h.2.symm⟩

/-- Files that differ beneath the command line only are refused together, or come to the same. -/
theorem ofSources_eq_iff (h : SameBeneath o (file.getD .none) (file'.getD .none)) :
    ofSources o file = ofSources o file' ↔
      (GivesZero o (file.getD .none) ↔ GivesZero o (file'.getD .none)) := by
  rw [ofSources_eq, ofSources_eq, layered_congr h]
  by_cases hzero : GivesZero o (file.getD .none) <;>
    by_cases hzero' : GivesZero o (file'.getD .none) <;> simp [hzero, hzero']

/-- For every command line, with a file or without: the settings are refused exactly when a layer
gives a timeout of zero, and otherwise every option is that of the first layer that gives it. When
the file is changed only where the command line overrides it, the outcome stays the same, settings
or fault, unless the command line gives another timeout than zero and that of one of the files is
zero and that of the other is not. -/
theorem first_layer_wins (o : RunOptions) (file : Option FileSettings) :
    (∀ fault, ofSources o file = .error fault ↔
      fault = .zeroTimeout ∧ (o.timeout = some 0 ∨ (file.getD .none).timeout = some 0)) ∧
    (∀ s, ofSources o file = .ok s ↔
      ¬(o.timeout = some 0 ∨ (file.getD .none).timeout = some 0) ∧
        s = layered o (file.getD .none)) ∧
    ∀ file', SameBeneath o (file.getD .none) (file'.getD .none) →
      (ofSources o file = ofSources o file' ↔ o.timeout = some 0 ∨
        ((file.getD .none).timeout = some 0 ↔ (file'.getD .none).timeout = some 0)) := by
  refine ⟨fun _ => ofSources_error_iff, fun _ => ofSources_ok_iff, fun file' h => ?_⟩
  rw [ofSources_eq_iff h]
  by_cases hline : o.timeout = some 0
  · simp only [GivesZero, hline, true_or]
  · simp only [GivesZero, hline, false_or]

/-- A file that gives a timeout of an hour and a format, beneath a command line that gives others:
another hour in its place changes nothing, and zero seconds do. -/
theorem first_layer_wins_hour :
    let o : RunOptions := { RunOptions.none with timeout := some 5, format := some .junit }
    let file (seconds : UInt64) : FileSettings :=
      { FileSettings.none with timeout := some seconds, format := some .json }
    SameBeneath o (file 3600) (file 0) ∧ SameBeneath o (file 3600) (file 7200) ∧
      ofSources o (some (file 3600)) = .ok { default with timeout := 5, format := .junit } ∧
      ofSources o (some (file 3600)) = ofSources o (some (file 7200)) ∧
      ofSources o (some (file 3600)) ≠ ofSources o (some (file 0)) ∧
      ofSources o (some (file 0)) = .error .zeroTimeout := by
  intro o file
  have hsame (seconds : UInt64) : SameBeneath o (file 3600) (file seconds) :=
    ⟨fun _ => rfl, nofun, nofun, fun _ => rfl, fun _ => rfl, rfl, rfl, rfl, rfl⟩
  obtain ⟨-, hok, hcongr⟩ := first_layer_wins o (some (file 3600))
  obtain ⟨herror, -, -⟩ := first_layer_wins o (some (file 0))
  refine ⟨hsame 0, hsame 7200, (hok _).mpr ⟨by decide, rfl⟩, ?_, ?_, (herror _).mpr (by decide)⟩
  · exact (hcongr (some (file 7200)) (hsame 7200)).mpr (by decide)
  · exact mt (hcongr (some (file 0)) (hsame 0)).mp (by decide)

/-- A timeout of zero need not take effect to be refused. -/
theorem zero_need_not_take_effect :
    ¬∀ (o : RunOptions) (file : Option FileSettings), ofSources o file = .error .zeroTimeout ↔
      (o.timeout <|> (file.getD .none).timeout) = some 0 := by
  intro h
  have hzero := (h { RunOptions.none with timeout := some 5 }
    (some { FileSettings.none with timeout := some 0 })).mp rfl
  cases hzero

end Whole

end Settings

end Conformance
