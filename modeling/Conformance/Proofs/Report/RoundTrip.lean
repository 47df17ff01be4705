import Conformance.Proofs.Json.Fields
import Conformance.Proofs.Json.RoundTrip
import Conformance.Proofs.Keyed
import Conformance.Proofs.Time.Rfc3339
import Conformance.Render.Format

/-!
The JSON text of a report, in either layout, is read back as that report. Each kind of record has
one lemma, for its value read back and one for its value being sound.
-/
namespace Conformance

open Json

theorem Time.Instant.ofJson?_toJson {t : Time.Instant} (h : t.IsShown) :
    ofJson? t.toJson = some t :=
  parse?_rfc3339 h

namespace Catalog

theorem ClaimId.ofJson?_toJson (c : ClaimId) : ofJson? c.toJson = some c := by
  simp [ofJson?, toJson, fields?_obj, List.lookup_cons, str?]

theorem Classification.read?_name (c : Classification) : read? (str c.name) = some c := by
  cases c <;> rfl

/-- Of the categories, only those with a classification are written, and only those found. -/
theorem Categories.read?_toJson (c : Categories) : read? c.toJson = some c := by
  obtain ⟨extended, farEdge, nonTelco, telco⟩ := c
  cases extended <;> cases farEdge <;> cases nonTelco <;> cases telco <;>
    simp [read?, toJson, names, DataFormat.fields?, fields?_obj, List.lookup_cons,
      DataFormat.optional?, DataFormat.isNull, isNull, Classification.read?_name]

end Catalog

theorem CheckInfo.ofJson?_toJson (i : CheckInfo) : ofJson? i.toJson = some i := by
  simp [ofJson?, toJson, fields?_obj, List.lookup_cons, str?]

theorem CheckState.ofJson?_name (state : CheckState) : ofJson? (.str state.name) = some state := by
  simp [ofJson?, case?, ofName?_name]

theorem Summary.ofJson?_toJson (s : Summary) : ofJson? s.toJson = some s := by
  simp [ofJson?, toJson, fields?_obj, List.lookup_cons, uint32?_toNat]

theorem GroupReport.ofJson?_toJson (g : GroupReport) : ofJson? g.toJson = some g := by
  have hids : DataFormat.list? str? (strings g.checkIds) = some g.checkIds :=
    list?_arr fun _ _ => rfl
  simp [ofJson?, toJson, fields?_obj, List.lookup_cons, str?, hids, Summary.ofJson?_toJson]

/-- A record whose times have a text. -/
structure Record.IsDated (r : Record) : Prop where
  started : ∀ t ∈ r.startedAt, t.IsShown
  ended : ∀ t ∈ r.endedAt, t.IsShown

theorem Time.Instant.optional?_ofOption {o : Option Time.Instant} (h : ∀ t ∈ o, t.IsShown) :
    DataFormat.optional? ofJson? (some (ofOption toJson o)) = some o :=
  Json.optional?_ofOption (fun t ht => ofJson?_toJson (h t ht)) fun _ => rfl

theorem Record.ofJson?_toJson {r : Record} (h : r.IsDated) : ofJson? r.toJson = some r := by
  simp [ofJson?, toJson, fields?_obj, List.lookup_cons, str?, Catalog.ClaimId.ofJson?_toJson,
    CheckState.ofJson?_name, Time.Instant.optional?_ofOption h.started,
    Time.Instant.optional?_ofOption h.ended, int64?_toInt, Catalog.Categories.read?_toJson,
    CheckInfo.ofJson?_toJson]

theorem Results.ofJson?_toJson {results : Results} (h : ∀ r ∈ results.values, r.IsDated) :
    ofJson? results.toJson = some results := by
  have hentries : (results.entries.map fun e => (e.1, e.2.toJson)).mapM
      (fun e => do return (e.1, ← Record.ofJson? e.2)) = some results.entries := by
    refine mapM_map_eq_some fun e he => ?_
    simp [Record.ofJson?_toJson (h e.2 (List.mem_map_of_mem he))]
  simp only [ofJson?, toJson, members?, Option.bind_eq_bind, Option.bind_some] at hentries ⊢
  rw [hentries, Option.bind_some, Keyed.ofList_entries]
  rfl

/-! Reports -/

namespace RunReport

/-- A report whose times have a text. -/
structure IsDated (r : RunReport) : Prop where
  started : r.startedAt.IsShown
  results : ∀ record ∈ r.results.values, record.IsDated

variable {r : RunReport}

/-- Whatever stands as the summary of a report, it is passed over. -/
theorem ofJson?_members (h : r.IsDated) (summary : Json) :
    ofJson? (.obj (("summary", summary) :: r.members)) = some r := by
  have habort : DataFormat.optional? str? (some (ofOption .str r.abortReason)) =
      some r.abortReason := Json.optional?_ofOption (fun _ _ => rfl) fun _ => rfl
  have herrors : DataFormat.list? str? (strings r.errors) = some r.errors :=
    list?_arr fun _ _ => rfl
  have hgroups : DataFormat.list? GroupReport.ofJson? (arr (r.groups.map GroupReport.toJson)) =
      some r.groups := list?_arr fun g _ => g.ofJson?_toJson
  simp [ofJson?, members, fields?_obj, List.lookup_cons, str?, habort, herrors, hgroups,
    Time.Instant.ofJson?_toJson h.started, uint64?_toNat, Results.ofJson?_toJson h.results]

end RunReport

/-! Every value that is written is sound -/

theorem Record.sound_toJson (r : Record) : r.toJson.Sound := by
  have htime : ∀ o, (ofOption Time.Instant.toJson o).Sound := sound_ofOption fun _ => trivial
  have hcategories : r.categories.toJson.Sound := by
    rw [Catalog.Categories.toJson, Sound, soundMembers_iff]
    intro m hm
    obtain ⟨⟨name, value⟩, -, hvalue⟩ := List.mem_filterMap.1 hm
    obtain ⟨classification, -, rfl⟩ := Option.map_eq_some_iff.1 hvalue
    trivial
  simp [toJson, Sound, SoundMembers, Catalog.ClaimId.toJson, CheckInfo.toJson, htime, hcategories]

theorem GroupReport.sound_toJson (g : GroupReport) : g.toJson.Sound := by
  simp [toJson, Sound, SoundMembers, Summary.toJson, sound_strings]

theorem RunReport.sound_document (r : RunReport) : r.document.Sound := by
  have habort : (ofOption str r.abortReason).Sound := sound_ofOption (f := str) (fun _ => trivial) _
  have hgroups : SoundItems (r.groups.map GroupReport.toJson) := by
    rw [soundItems_iff, List.forall_mem_map]
    exact fun g _ => g.sound_toJson
  have hresults : r.results.toJson.Sound := by
    rw [Results.toJson, Sound, soundMembers_iff, List.forall_mem_map]
    exact fun e _ => e.2.sound_toJson
  simp [document, members, Sound, SoundMembers, Summary.toJson, Time.Instant.toJson, sound_strings,
    habort, hgroups, hresults]

/-! Texts -/

namespace RunReport

/-- The report in a JSON text. -/
def read? (text : String) : Option RunReport := (parse? text).bind ofJson?

/-- Both texts of a report, the indented one that is rendered and the compact one, are read back as
that report, whatever its summary says. -/
theorem read?_document {r : RunReport} (h : r.IsDated) :
    (∀ style, read? (Render.Format.json.render style r) = some r) ∧
      read? r.document.compact = some r ∧
      ∀ summary, ofJson? (.obj (("summary", summary) :: r.members)) = some r := by
  have hback : ofJson? r.document = some r := ofJson?_members h _
  refine ⟨fun style => ?_, ?_, ofJson?_members h⟩
  · rw [read?, Render.Format.render, parse?_indented r.sound_document, Option.bind_some, hback]
  · rw [read?, parse?_compact r.sound_document, Option.bind_some, hback]

/-- A check failed in a leap second, with a quotation mark, a backslash, a control character and
letters of another script in what it says. -/
def ofLeapSecond : RunReport where
  labelFilter := "\"net\" || !\\slow"
  startedAt := ⟨1483228799, 1250000000⟩
  durationMs := 18446744073709551615
  abortReason := none
  errors := ["\x07 ошибка"]
  failedChecks := 1
  groups := [⟨"α/β", ["a"], ⟨0, 1, 0, 0, 0, 1⟩⟩]
  results := .ofList [("a", {
    testId := ⟨"s-a", "s", "x,y"⟩
    state := .failed
    startedAt := some ⟨1483228799, 1250000000⟩
    endedAt := none
    duration := -1
    reason := "\r\n"
    output := ""
    details := "\x7b\"k\":[]\x7d"
    categories := ⟨some .mandatory, none, none, some .optional⟩
    info := ⟨"d", "r", "b", "e"⟩ })]

theorem read?_document_ofLeapSecond :
    ofLeapSecond.IsDated ∧
      (∀ style, read? (Render.Format.json.render style ofLeapSecond) = some ofLeapSecond) ∧
      read? ofLeapSecond.document.compact = some ofLeapSecond ∧
      ∀ summary, ofJson? (.obj (("summary", summary) :: ofLeapSecond.members)) =
        some ofLeapSecond := by
  have hdated : ofLeapSecond.IsDated := by
    refine ⟨by decide, fun record hrecord => ?_⟩
    obtain rfl := List.mem_singleton.1 hrecord
    refine ⟨fun t ht => ?_, nofun⟩
    obtain rfl := Option.some.inj ht
    decide
  exact ⟨hdated, read?_document hdated⟩

end RunReport

end Conformance
