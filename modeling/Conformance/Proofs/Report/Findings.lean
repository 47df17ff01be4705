import Conformance.Proofs.Check.Verdicts
import Conformance.Proofs.Json.Fields
import Conformance.Proofs.Json.RoundTrip

/-!
The text that the findings of a check are rendered as tells what was found, whatever the texts in
the findings are. So the details of a check, and the reason for which its findings fail it, tell all
of its findings.
-/
namespace Conformance

open Json

namespace Finding

def fieldNames : List String := ["ObjectType", "ObjectFieldsKeys", "ObjectFieldsValues"]

def ofJson? (v : Json) : Option Finding := do
  match ← fields? fieldNames v with
  | [some kind, some keys, some values] =>
    return ⟨← str? kind, ← DataFormat.list? str? keys, ← DataFormat.list? str? values⟩
  | _ => none

/-- A finding need not have as many keys as values. -/
theorem ofJson?_toJson (f : Finding) : ofJson? f.toJson = some f := by
  have htexts (texts : List String) : DataFormat.list? str? (strings texts) = some texts :=
    list?_arr fun _ _ => rfl
  simp [ofJson?, toJson, fieldNames, fields?_obj, List.lookup_cons, str?, htexts]

theorem sound_toJson (f : Finding) : f.toJson.Sound := by
  simp [toJson, Sound, SoundMembers, sound_strings]

end Finding

/-- The findings in a text: of objects that comply, and of those that do not. -/
def readFindings? (text : String) : Option (List Finding × List Finding) := do
  match ← fields? ["CompliantObjectsOut", "NonCompliantObjectsOut"] (← parse? text) with
  | [some compliant, some nonCompliant] =>
    return (← DataFormat.list? Finding.ofJson? compliant,
      ← DataFormat.list? Finding.ofJson? nonCompliant)
  | _ => none

theorem sound_findingsJson (compliant nonCompliant : List Finding) :
    (findingsJson compliant nonCompliant).Sound := by
  have hall (found : List Finding) : SoundItems (found.map Finding.toJson) := by
    rw [soundItems_iff, List.forall_mem_map]
    exact fun f _ => f.sound_toJson
  simp [findingsJson, Sound, SoundMembers, hall]

theorem parse?_renderFindings (compliant nonCompliant : List Finding) :
    parse? (renderFindings compliant nonCompliant) =
      some (findingsJson compliant nonCompliant) :=
  parse?_compact (sound_findingsJson compliant nonCompliant)

theorem readFindings?_renderFindings (compliant nonCompliant : List Finding) :
    readFindings? (renderFindings compliant nonCompliant) = some (compliant, nonCompliant) := by
  have hall (found : List Finding) :
      DataFormat.list? Finding.ofJson? (.arr (found.map Finding.toJson)) = some found :=
    list?_arr fun f _ => f.ofJson?_toJson
  simp [readFindings?, parse?_renderFindings, findingsJson, fields?_obj, List.lookup_cons, hall]

namespace Status

variable {s : Status} (compliant : List Finding) {nonCompliant : List Finding}

theorem details_findings (h : s.state ≠ .aborted) (nonCompliant : List Finding) :
    (s.apply (.findings compliant nonCompliant)).details =
      renderFindings compliant nonCompliant := by
  rw [details_apply, if_neg h]
  rfl

theorem standing_findings (h : ¬s.standing.IsSettled) (hbad : nonCompliant ≠ []) :
    (s.apply (.findings compliant nonCompliant)).standing =
      ⟨.failed, renderFindings compliant nonCompliant⟩ := by
  rw [standing_apply, Standing.take_of_not_isSettled h, Standing.ofVerdict?, if_pos]
  · rfl
  · simpa using hbad

end Status

/-- The text of any findings is the JSON text of their value, and is read back as these findings, so
that no others have the same text. Hence whatever a check was before, the details that its findings
leave it with are read back as these findings, unless it was aborted, and if they fail it, then so
is the reason. -/
theorem text_determines_findings (compliant nonCompliant : List Finding) :
    parse? (renderFindings compliant nonCompliant) = some (findingsJson compliant nonCompliant) ∧
      readFindings? (renderFindings compliant nonCompliant) = some (compliant, nonCompliant) ∧
      (∀ c n, renderFindings c n = renderFindings compliant nonCompliant →
        c = compliant ∧ n = nonCompliant) ∧
      ∀ s : Status, (s.state ≠ .aborted →
          readFindings? (s.apply (.findings compliant nonCompliant)).details =
            some (compliant, nonCompliant)) ∧
        (¬s.standing.IsSettled → nonCompliant ≠ [] →
          (s.apply (.findings compliant nonCompliant)).state = .failed ∧
            readFindings? (s.apply (.findings compliant nonCompliant)).reason =
              some (compliant, nonCompliant)) := by
  have hread := readFindings?_renderFindings
  refine ⟨parse?_renderFindings _ _, hread _ _, fun c n hsame => ?_, fun s => ⟨?_, ?_⟩⟩
  · have hpair := hread c n
    rw [hsame, hread] at hpair
    cases hpair
    exact ⟨rfl, rfl⟩
  · intro hopen
    rw [Status.details_findings compliant hopen, hread]
  · intro hopen hbad
    have hstanding := Status.standing_findings compliant hopen hbad
    have hreason : (s.apply (.findings compliant nonCompliant)).reason =
        renderFindings compliant nonCompliant := congrArg Standing.reason hstanding
    rw [hreason, hread]
    exact ⟨congrArg Standing.state hstanding, rfl⟩

/-- A quotation mark, a backslash, a control character, a letter of another script, and more keys
than values. -/
example : renderFindings [] [⟨"\x07", ["\"", "\\"], ["ж"]⟩] =
    "\x7b\"CompliantObjectsOut\":[],\"NonCompliantObjectsOut\":[" ++
      "\x7b\"ObjectType\":\"\\u0007\",\"ObjectFieldsKeys\":[\"\\\"\",\"\\\\\"]," ++
      "\"ObjectFieldsValues\":[\"ж\"]\x7d]\x7d" := by
  decide

end Conformance
