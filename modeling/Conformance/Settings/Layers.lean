import Conformance.CommandLine.Options
import Conformance.Settings.File

/-!
Where the settings come from: the command line stands above a settings file, and that above the
defaults.
-/
namespace Conformance.Settings

open CommandLine

/-- The settings with those of the command line in their place. -/
def override (s : Settings) (o : RunOptions) : Except SettingsFault Settings :=
  let s := { s with labelFilter := o.labelFilter.getD s.labelFilter }
  if o.timeout = some 0 then .error .zeroTimeout
  else .ok { s with
    timeout := o.timeout.getD s.timeout
    format := o.format.getD s.format
    output := o.output <|> s.output
    catalog := o.catalog <|> s.catalog
    noColor := s.noColor || o.noColor
    verbose := s.verbose || o.verbose }

def ofSources (o : RunOptions) (file : Option FileSettings) : Except SettingsFault Settings :=
  match file with
  | none => default.override o
  | some file =>
    match file.apply default with
    | (_, some fault) => .error fault
    | (s, none) => s.override o

/-- The file that the command line names, or else the one that the environment names. -/
def filePath? (o : RunOptions) (environment : Option String) : Option String :=
  o.config <|> environment.filter (!·.isEmpty)

def load (files : FileTree) (o : RunOptions) (environment : Option String) :
    Except SettingsFault Settings :=
  match filePath? o environment with
  | none => ofSources o none
  | some path => do ofSources o (some (← FileSettings.load files path))

end Conformance.Settings
