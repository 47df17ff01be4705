import Conformance.Settings.Basic
import Conformance.Toml.Reader

/-!
Settings files. A file is a TOML table of settings, each of which may be left out, and holds nothing
else.
-/
namespace Conformance

structure FileSettings where
  labelFilter : Option String
  timeout : Option UInt64
  format : Option Render.Format
  output : Option String
  catalog : Option String
  tags : Option (List String)
  handleSignals : Option Bool
  logLevel : Option String
  acceptedTaints : Option (List String)
  deriving DecidableEq, Repr

namespace FileSettings

open DataFormat

def fieldNames : List String :=
  ["label_filter", "timeout_secs", "format", "output", "catalog", "tags", "handle_signals",
    "log_level", "accepted_kernel_taints"]

def formatOf? (v : Toml) : Option Render.Format := do Render.Format.ofName? (← case? v)

def ofToml? (v : Toml) : Option FileSettings := do
  let members ← v.members?
  if members.all fun (name, _) => fieldNames.contains name then
    match ← fields? fieldNames v with
    | [filter, timeout, format, output, catalog, tags, signals, level, taints] =>
      return {
        labelFilter := ← optional? text? filter
        timeout := ← optional? Toml.uint64? timeout
        format := ← optional? formatOf? format
        output := ← optional? text? output
        catalog := ← optional? text? catalog
        tags := ← optional? (list? text?) tags
        handleSignals := ← optional? flag? signals
        logLevel := ← optional? text? level
        acceptedTaints := ← optional? (list? text?) taints }
    | _ => none
  else none

def load (files : FileTree) (path : String) : Except SettingsFault FileSettings := do
  let text ← (files.readText (.ofText path)).mapError (.unreadable path)
  match (Toml.parse? text).bind ofToml? with
  | some settings => .ok settings
  | none => .error (.invalid path)

/-- The settings with those of a file in their place. A timeout of zero is a fault, which is found
after the label filter has been taken over and before anything else is. -/
def apply (f : FileSettings) (s : Settings) : Settings × Option SettingsFault :=
  let s := { s with labelFilter := f.labelFilter.getD s.labelFilter }
  if f.timeout = some 0 then (s, some .zeroTimeout)
  else
    ({ s with
      timeout := f.timeout.getD s.timeout
      format := f.format.getD s.format
      output := f.output <|> s.output
      catalog := f.catalog <|> s.catalog
      tags := f.tags.getD s.tags
      handleSignals := f.handleSignals.getD s.handleSignals
      logLevel := f.logLevel <|> s.logLevel
      acceptedTaints := f.acceptedTaints.getD s.acceptedTaints }, none)

end FileSettings

end Conformance
