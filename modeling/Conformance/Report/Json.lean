import Conformance.Catalog.Reading
import Conformance.Json.Fields
import Conformance.Json.Printer
import Conformance.Report.Basic
import Conformance.Time.Rfc3339

/-!
Reports as JSON values, and back. The members come in a fixed order; categories without a
classification are left out. The document that is printed puts the totals before the report.
-/
namespace Conformance

def Time.Instant.toJson (t : Time.Instant) : Json := .str (t.rfc3339 "Z")

def Time.Instant.ofJson? : Json → Option Time.Instant
  | .str text => Time.Instant.parse? text
  | _ => none

namespace Catalog

def ClaimId.toJson (c : ClaimId) : Json :=
  .obj [("id", .str c.id), ("suite", .str c.suite), ("tags", .str c.tags)]

def ClaimId.ofJson? (v : Json) : Option ClaimId := do
  match ← v.fields? ["id", "suite", "tags"] with
  | [some id, some suite, some tags] => return ⟨← id.str?, ← suite.str?, ← tags.str?⟩
  | _ => none

def Categories.toJson (c : Categories) : Json :=
  .obj ((names.zip [c.extended, c.farEdge, c.nonTelco, c.telco]).filterMap fun (name, value) =>
    value.map fun classification => (name, .str classification.name))

end Catalog

namespace CheckInfo

def toJson (i : CheckInfo) : Json :=
  .obj [("description", .str i.description), ("remediation", .str i.remediation),
    ("best_practice_reference", .str i.reference), ("exception_process", .str i.exceptionProcess)]

def ofJson? (v : Json) : Option CheckInfo := do
  match ← v.fields? ["description", "remediation", "best_practice_reference",
      "exception_process"] with
  | [some description, some remediation, some reference, some process] =>
    return ⟨← description.str?, ← remediation.str?, ← reference.str?, ← process.str?⟩
  | _ => none

end CheckInfo

def CheckState.ofJson? (v : Json) : Option CheckState := do ofName? (← v.case?)

namespace Record

def toJson (r : Record) : Json :=
  .obj [("test_id", r.testId.toJson), ("state", .str r.state.name),
    ("start_time", Json.ofOption Time.Instant.toJson r.startedAt),
    ("end_time", Json.ofOption Time.Instant.toJson r.endedAt),
    ("duration", .int r.duration.toInt), ("skip_reason", .str r.reason),
    ("captured_test_output", .str r.output), ("check_details", .str r.details),
    ("category_classification", r.categories.toJson), ("catalog_info", r.info.toJson)]

def ofJson? (v : Json) : Option Record := do
  match ← v.fields? ["test_id", "state", "start_time", "end_time", "duration", "skip_reason",
      "captured_test_output", "check_details", "category_classification", "catalog_info"] with
  | [some testId, some state, start, finish, some duration, some reason, some output,
      some details, some categories, some info] =>
    return {
      testId := ← Catalog.ClaimId.ofJson? testId
      state := ← CheckState.ofJson? state
      startedAt := ← DataFormat.optional? Time.Instant.ofJson? start
      endedAt := ← DataFormat.optional? Time.Instant.ofJson? finish
      duration := ← duration.int64?
      reason := ← reason.str?
      output := ← output.str?
      details := ← details.str?
      categories := ← Catalog.Categories.read? categories
      info := ← CheckInfo.ofJson? info }
  | _ => none

end Record

namespace Results

def toJson (results : Results) : Json :=
  .obj (results.entries.map fun (id, record) => (id, record.toJson))

/-- The last record of an id is the one kept. -/
def ofJson? (v : Json) : Option Results := do
  let entries ← (← v.members?).mapM fun (id, record) => do return (id, ← Record.ofJson? record)
  return .ofList entries

end Results

namespace Summary

def toJson (s : Summary) : Json :=
  .obj [("passed", .int s.passed.toNat), ("failed", .int s.failed.toNat),
    ("skipped", .int s.skipped.toNat), ("error", .int s.error.toNat),
    ("aborted", .int s.aborted.toNat), ("total", .int s.total.toNat)]

def ofJson? (v : Json) : Option Summary := do
  match ← v.fields? ["passed", "failed", "skipped", "error", "aborted", "total"] with
  | [some passed, some failed, some skipped, some error, some aborted, some total] =>
    return ⟨← passed.uint32?, ← failed.uint32?, ← skipped.uint32?, ← error.uint32?,
      ← aborted.uint32?, ← total.uint32?⟩
  | _ => none

end Summary

namespace GroupReport

def toJson (g : GroupReport) : Json :=
  .obj [("name", .str g.name), ("check_ids", .strings g.checkIds), ("summary", g.summary.toJson)]

def ofJson? (v : Json) : Option GroupReport := do
  match ← v.fields? ["name", "check_ids", "summary"] with
  | [some name, some ids, some summary] =>
    return ⟨← name.str?, ← DataFormat.list? Json.str? ids, ← Summary.ofJson? summary⟩
  | _ => none

end GroupReport

namespace RunReport

def members (r : RunReport) : List (String × Json) :=
  [("label_filter", .str r.labelFilter), ("started_at", r.startedAt.toJson),
    ("duration_ms", .int r.durationMs.toNat), ("abort_reason", Json.ofOption .str r.abortReason),
    ("errors", .strings r.errors), ("failed_checks", .int r.failedChecks.toNat),
    ("groups", .arr (r.groups.map GroupReport.toJson)), ("results", r.results.toJson)]

def toJson (r : RunReport) : Json := .obj r.members

def ofJson? (v : Json) : Option RunReport := do
  match ← v.fields? ["label_filter", "started_at", "duration_ms", "abort_reason", "errors",
      "failed_checks", "groups", "results"] with
  | [some filter, some started, some duration, abort, some errors, some failed, some groups,
      some results] =>
    return {
      labelFilter := ← filter.str?
      startedAt := ← Time.Instant.ofJson? started
      durationMs := ← duration.uint64?
      abortReason := ← DataFormat.optional? Json.str? abort
      errors := ← DataFormat.list? Json.str? errors
      failedChecks := ← failed.uint64?
      groups := ← DataFormat.list? GroupReport.ofJson? groups
      results := ← Results.ofJson? results }
  | _ => none

def document (r : RunReport) : Json := .obj (("summary", r.summary.toJson) :: r.members)

end RunReport

end Conformance
