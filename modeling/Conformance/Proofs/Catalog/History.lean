import Conformance.Catalog.Loading
import Conformance.Proofs.Catalog.Documents
import Conformance.Proofs.Json.RoundTrip
import Conformance.Proofs.Keyed

/-!
A catalog told by its history. Drafts are added one by one, other catalogs are merged into it, and
catalogs are read from texts and files, some of which cannot be read. Whatever is done in whatever
order, the catalog is that of all drafts supplied so far, of which the last one of an id counts, and
each of them has gone through the same completion.
-/
namespace Conformance.Catalog

section Drafts

variable {c : Catalog} {drafts : List Draft} {id : String}

def Draft.checkId (d : Draft) : String := Catalog.checkId d.suite d.testId

/-- What has to hold of an entry for its check to be reported under it. -/
structure Entry.IsComplete (entry : Entry) : Prop where
  id : ∃ testId, entry.identifier.id = entry.identifier.suite ++ "-" ++ testId
  tags : entry.identifier.tags = ",".intercalate entry.tags
  tagged : entry.tags ≠ []
  exceptionProcess : Text.isBlankText entry.exceptionProcess = false
  reference : Text.isBlankText entry.reference = false

/-- The entry says what the draft says, wherever the draft says anything. -/
structure Entry.Keeps (entry : Entry) (d : Draft) : Prop where
  id : entry.identifier.id = d.suite ++ "-" ++ d.testId
  suite : entry.identifier.suite = d.suite
  description : entry.description = d.description
  remediation : entry.remediation = d.remediation
  qe : entry.qe = d.qe
  categories : entry.categories = d.categories
  tags : entry.tags = if d.tags = [] then [commonTag] else d.tags
  exceptionProcess : entry.exceptionProcess =
    if Text.isBlankText d.exceptionProcess then noDocumentedProcess else d.exceptionProcess
  reference : entry.reference =
    if Text.isBlankText d.reference then noReference else d.reference

theorem isBlankText_unlessBlank (text : String) {default : String}
    (h : Text.isBlankText default = false) :
    Text.isBlankText (unlessBlank text default) = false := by
  unfold unlessBlank
  split
  · exact h
  · next htext => exact Bool.eq_false_iff.mpr htext

theorem isComplete_toEntry (d : Draft) : d.toEntry.IsComplete where
  id := ⟨d.testId, rfl⟩
  tags := rfl
  tagged := by
    cases htags : d.tags <;> simp [Draft.toEntry, htags]
  exceptionProcess := isBlankText_unlessBlank _ (by decide)
  reference := isBlankText_unlessBlank _ (by decide)

theorem keeps_toEntry (d : Draft) : d.toEntry.Keeps d where
  id := rfl
  suite := rfl
  description := rfl
  remediation := rfl
  qe := rfl
  categories := rfl
  tags := by simp [Draft.toEntry]
  exceptionProcess := rfl
  reference := rfl

theorem entries_addAll (c : Catalog) (drafts : List Draft) :
    (c.addAll drafts).entries =
      c.entries.insertAll (drafts.map fun d => (d.checkId, d.toEntry)) := by
  induction drafts generalizing c with
  | nil => rfl
  | cons d rest ih => exact ih (c.add d)

theorem get?_ofDrafts (drafts : List Draft) (id : String) :
    (ofDrafts drafts).entries.get? id =
      (drafts.reverse.find? (·.checkId == id)).map Draft.toEntry := by
  rw [ofDrafts, entries_addAll, Keyed.get?_insertAll_map]
  exact Option.or_none

theorem lookup_ofDrafts (drafts : List Draft) (id : String) : (ofDrafts drafts).lookup id =
    match drafts.reverse.find? (·.checkId == id) with
    | some d => .ok d.toEntry
    | none => .error ⟨id⟩ := by
  rw [lookup, get?_ofDrafts]
  cases drafts.reverse.find? (·.checkId == id) <;> rfl

theorem mem_keys_ofDrafts :
    id ∈ (ofDrafts drafts).entries.keys ↔ id ∈ drafts.map Draft.checkId := by
  rw [Keyed.mem_keys, ← Option.isSome_iff_exists, get?_ofDrafts, Option.isSome_map,
    List.find?_isSome]
  simp

theorem exists_of_mem_ofDrafts {entry : Entry}
    (h : (id, entry) ∈ (ofDrafts drafts).entries.entries) :
    ∃ d ∈ drafts, d.checkId = id ∧ entry = d.toEntry := by
  rw [← Keyed.get?_eq_some, get?_ofDrafts] at h
  obtain ⟨d, hfound, rfl⟩ := Option.map_eq_some_iff.mp h
  have hid := List.find?_some hfound
  exact ⟨d, List.mem_reverse.mp (List.mem_of_find?_eq_some hfound), by simpa using hid, rfl⟩

theorem add_ofDrafts (drafts : List Draft) (d : Draft) :
    (ofDrafts drafts).add d = ofDrafts (drafts ++ [d]) := by
  rw [ofDrafts, ofDrafts, addAll, addAll, List.foldl_append]
  rfl

theorem merge_ofDrafts (drafts later : List Draft) :
    (ofDrafts drafts).merge (ofDrafts later) = ofDrafts (drafts ++ later) := by
  have hentries : ((ofDrafts drafts).merge (ofDrafts later)).entries =
      (ofDrafts (drafts ++ later)).entries := Keyed.ext_get? fun id => by
    rw [merge, Keyed.get?_insertAll_entries, get?_ofDrafts, get?_ofDrafts, get?_ofDrafts,
      List.reverse_append, List.find?_append, Option.map_or]
  exact congrArg Catalog.mk hentries

end Drafts

/-- Where a catalog is read from: a text with the path that it is said to be from, or a file. -/
inductive Source where
  | json (text path : String)
  | toml (text path : String)
  | file (files : FileTree) (path : String)

namespace Source

def read : Source → Except LoadFault Catalog
  | json text path => ofJsonText text path
  | toml text path => ofTomlText text path
  | file files path => load files path

/-- The drafts are written in the document of a source. The ending of a file's name tells in which
format. -/
inductive Supplies : Source → List Draft → Prop
  | json {text path : String} {document : Json} {drafts : List Draft}
      (hdocument : Json.parse? text = some document)
      (h : Json.writing.IsCatalog document drafts) : Supplies (.json text path) drafts
  | toml {text path : String} {document : Toml} {drafts : List Draft}
      (hdocument : Toml.parse? text = some document)
      (h : Toml.writing.IsCatalog document drafts) : Supplies (.toml text path) drafts
  | jsonFile {files : FileTree} {path text : String} {drafts : List Draft}
      (htext : files.readText (.ofText path) = .ok text)
      (hending : (FilePath.ofText path).extension? = some (Text.toUtf8 "json"))
      (h : Supplies (.json text path) drafts) : Supplies (.file files path) drafts
  | tomlFile {files : FileTree} {path text : String} {drafts : List Draft}
      (htext : files.readText (.ofText path) = .ok text)
      (hending : (FilePath.ofText path).extension? = some (Text.toUtf8 "toml"))
      (h : Supplies (.toml text path) drafts) : Supplies (.file files path) drafts

variable {c : Catalog} {drafts later : List Draft} {text path : String}

theorem supplies_json_iff :
    (json text path).Supplies drafts ↔ (Json.parse? text).bind readDrafts? = some drafts := by
  simp only [Option.bind_eq_some_iff, readDrafts?_eq_some_iff Json.isRead_writing]
  constructor
  · rintro ⟨hdocument, h⟩
    exact ⟨_, hdocument, h⟩
  · rintro ⟨document, hdocument, h⟩
    exact .json hdocument h

theorem supplies_toml_iff :
    (toml text path).Supplies drafts ↔ (Toml.parse? text).bind readDrafts? = some drafts := by
  simp only [Option.bind_eq_some_iff, readDrafts?_eq_some_iff Toml.isRead_writing]
  constructor
  · rintro (_ | ⟨hdocument, h⟩)
    exact ⟨_, hdocument, h⟩
  · rintro ⟨document, hdocument, h⟩
    exact .toml hdocument h

theorem read_json_eq_ok_iff : (json text path).read = .ok c ↔
    ∃ drafts, (json text path).Supplies drafts ∧ c = ofDrafts drafts := by
  simp only [supplies_json_iff, read, ofJsonText]
  cases (Json.parse? text).bind readDrafts? with
  | none => simp
  | some drafts => simp [eq_comm]

theorem read_toml_eq_ok_iff : (toml text path).read = .ok c ↔
    ∃ drafts, (toml text path).Supplies drafts ∧ c = ofDrafts drafts := by
  simp only [supplies_toml_iff, read, ofTomlText]
  cases (Toml.parse? text).bind readDrafts? with
  | none => simp
  | some drafts => simp [eq_comm]

theorem toml_ne_json : Text.toUtf8 "toml" ≠ Text.toUtf8 "json" := by decide +kernel

theorem read_file (files : FileTree) (path : String) : (file files path).read =
    match files.readText (.ofText path) with
    | .error fault => .error (.unreadable path fault)
    | .ok text =>
      if (FilePath.ofText path).extension? = some (Text.toUtf8 "json") then (json text path).read
      else if (FilePath.ofText path).extension? = some (Text.toUtf8 "toml") then
        (toml text path).read
      else .error (.unsupported path) := by
  simp only [read, load]
  cases files.readText (.ofText path) <;> rfl

/-- A source is read as the drafts that it supplies, or cannot be read. -/
theorem read_eq_ok_iff {s : Source} :
    s.read = .ok c ↔ ∃ drafts, s.Supplies drafts ∧ c = ofDrafts drafts := by
  match s with
  | .json text path => exact read_json_eq_ok_iff
  | .toml text path => exact read_toml_eq_ok_iff
  | .file files path =>
    rw [read_file]
    constructor
    · intro h
      split at h
      · cases h
      · rename_i text htext
        split_ifs at h with hjson htoml
        · obtain ⟨drafts, hsupplies, hc⟩ := read_json_eq_ok_iff.mp h
          exact ⟨drafts, .jsonFile htext hjson hsupplies, hc⟩
        · obtain ⟨drafts, hsupplies, hc⟩ := read_toml_eq_ok_iff.mp h
          exact ⟨drafts, .tomlFile htext htoml hsupplies, hc⟩
    · rintro ⟨drafts, hsupplies, hc⟩
      cases hsupplies with
      | jsonFile htext hending h =>
        simp only [htext, hending, if_pos]
        exact read_json_eq_ok_iff.mpr ⟨drafts, h, hc⟩
      | tomlFile htext hending h =>
        simp only [htext, hending, Option.some.injEq, if_neg toml_ne_json, if_pos]
        exact read_toml_eq_ok_iff.mpr ⟨drafts, h, hc⟩

/-- A source supplies its drafts in one way only. -/
theorem Supplies.unique {s : Source} (h : s.Supplies drafts) (hlater : s.Supplies later) :
    drafts = later := by
  induction h with
  | @json text path _ drafts hdocument h =>
    have hsame : (Source.json text path).Supplies drafts := .json hdocument h
    rw [supplies_json_iff] at hsame hlater
    exact Option.some.inj (hsame.symm.trans hlater)
  | @toml text path _ drafts hdocument h =>
    have hsame : (Source.toml text path).Supplies drafts := .toml hdocument h
    rw [supplies_toml_iff] at hsame hlater
    exact Option.some.inj (hsame.symm.trans hlater)
  | jsonFile htext hending h ih =>
    cases hlater with
    | jsonFile htext' _ h' =>
      rw [htext, Except.ok.injEq] at htext'
      exact ih (htext' ▸ h')
    | tomlFile _ hending' _ =>
      exact absurd (Option.some.inj (hending'.symm.trans hending)) toml_ne_json
  | tomlFile htext hending h ih =>
    cases hlater with
    | jsonFile _ hending' _ =>
      exact absurd (Option.some.inj (hending.symm.trans hending')) toml_ne_json
    | tomlFile htext' _ h' =>
      rw [htext, Except.ok.injEq] at htext'
      exact ih (htext' ▸ h')

theorem not_supplies_of_error {s : Source} {fault : LoadFault} (h : s.read = .error fault) :
    ¬s.Supplies drafts := by
  intro hsupplies
  have hok := read_eq_ok_iff.mpr ⟨drafts, hsupplies, rfl⟩
  rw [h] at hok
  cases hok

end Source

/-- How a catalog came about. A source that cannot be read leaves the catalog as it was. -/
inductive History where
  | start
  | add (earlier : History) (draft : Draft)
  | merge (earlier other : History)
  | read (earlier : History) (source : Source)

namespace History

def catalog : History → Catalog
  | start => .empty
  | add earlier draft => earlier.catalog.add draft
  | merge earlier other => earlier.catalog.merge other.catalog
  | read earlier source => earlier.catalog.mergeLoaded source.read

/-- The drafts are all that were supplied, in the order in which they were. -/
inductive Supplied : History → List Draft → Prop
  | start : Supplied start []
  | add {earlier : History} {drafts : List Draft} (h : Supplied earlier drafts) (draft : Draft) :
      Supplied (earlier.add draft) (drafts ++ [draft])
  | merge {earlier other : History} {drafts later : List Draft} (h : Supplied earlier drafts)
      (hother : Supplied other later) : Supplied (earlier.merge other) (drafts ++ later)
  | read {earlier : History} {source : Source} {drafts later : List Draft}
      (h : Supplied earlier drafts) (hsource : source.Supplies later) :
      Supplied (earlier.read source) (drafts ++ later)
  | unread {earlier : History} {source : Source} {drafts : List Draft}
      (h : Supplied earlier drafts) (hsource : ∀ later, ¬source.Supplies later) :
      Supplied (earlier.read source) drafts

variable {h : History} {drafts others : List Draft}

theorem exists_supplied (h : History) : ∃ drafts, h.Supplied drafts := by
  induction h with
  | start => exact ⟨[], .start⟩
  | add earlier draft ih =>
    obtain ⟨drafts, hdrafts⟩ := ih
    exact ⟨_, hdrafts.add draft⟩
  | merge earlier other ih ih' =>
    obtain ⟨drafts, hdrafts⟩ := ih
    obtain ⟨later, hlater⟩ := ih'
    exact ⟨_, hdrafts.merge hlater⟩
  | read earlier source ih =>
    obtain ⟨drafts, hdrafts⟩ := ih
    by_cases hsource : ∃ later, source.Supplies later
    · obtain ⟨later, hlater⟩ := hsource
      exact ⟨_, hdrafts.read hlater⟩
    · exact ⟨_, hdrafts.unread (not_exists.mp hsource)⟩

theorem Supplied.unique (h₁ : h.Supplied drafts) (h₂ : h.Supplied others) : others = drafts := by
  induction h₁ generalizing others with
  | start =>
    cases h₂
    rfl
  | add h₁ draft ih =>
    cases h₂ with
    | add h₂ => rw [ih h₂]
  | merge h₁ hother ih ih' =>
    cases h₂ with
    | merge h₂ hother' => rw [ih h₂, ih' hother']
  | read h₁ hsource ih =>
    cases h₂ with
    | read h₂ hsource' => rw [ih h₂, hsource.unique hsource']
    | unread _ hnone => exact absurd hsource (hnone _)
  | unread h₁ hnone ih =>
    cases h₂ with
    | read _ hsource => exact absurd hsource (hnone _)
    | unread h₂ => exact ih h₂

theorem Supplied.catalog_eq (hs : h.Supplied drafts) : h.catalog = ofDrafts drafts := by
  induction hs with
  | start => rfl
  | add _ draft ih => rw [catalog, ih, add_ofDrafts]
  | merge _ _ ih ih' => rw [catalog, ih, ih', merge_ofDrafts]
  | read _ hsource ih =>
    rw [catalog, ih, Source.read_eq_ok_iff.mpr ⟨_, hsource, rfl⟩]
    exact merge_ofDrafts _ _
  | @unread earlier source _ _ hnone ih =>
    rw [catalog, ih]
    cases hread : source.read with
    | error fault => rfl
    | ok c =>
      obtain ⟨later, hlater, -⟩ := Source.read_eq_ok_iff.mp hread
      exact absurd hlater (hnone later)

theorem lookup_eq_error_iff (id : String) :
    (ofDrafts drafts).lookup id = .error ⟨id⟩ ↔ ∀ d ∈ drafts, d.checkId ≠ id := by
  rw [lookup_ofDrafts]
  cases hfound : drafts.reverse.find? (·.checkId == id) with
  | none => simpa using hfound
  | some d =>
    refine ⟨nofun, fun hnone => ?_⟩
    have hid := List.find?_some hfound
    exact absurd (by simpa using hid) (hnone d (by simpa using List.mem_of_find?_eq_some hfound))

/-- The drafts that were supplied in a history decide its catalog. Under an id stands the entry of
the last one of this id, and nothing only if there was none, so that there are as many entries as
different ids. Every entry stands under its own id, is complete, and keeps what its draft says. A
source that cannot be read supplies nothing and changes nothing. One that can be read supplies the
drafts that are written in it, in their order; so does a document that is printed in any layout. -/
theorem catalog_goes_by_history (h : History) :
    ∃ drafts, h.Supplied drafts ∧ (∀ others, h.Supplied others → others = drafts) ∧
      (∀ id, h.catalog.lookup id =
        match drafts.reverse.find? (·.checkId == id) with
        | some d => .ok d.toEntry
        | none => .error ⟨id⟩) ∧
      (∀ id, h.catalog.lookup id = .error ⟨id⟩ ↔ ∀ d ∈ drafts, d.checkId ≠ id) ∧
      h.catalog.size = (drafts.map Draft.checkId).dedup.length ∧
      (∀ id entry, (id, entry) ∈ h.catalog.entries.entries →
        id = entry.identifier.id ∧ entry.IsComplete ∧
          ∃ d ∈ drafts, d.checkId = id ∧ entry.Keeps d) ∧
      (∀ source fault, source.read = .error fault → (h.read source).catalog = h.catalog ∧
        (h.read source).Supplied drafts ∧ ∀ later, ¬source.Supplies later) ∧
      (∀ source c, source.read = .ok c ↔ ∃ later, source.Supplies later ∧ c = ofDrafts later ∧
        (h.read source).Supplied (drafts ++ later)) ∧
      ∀ (l : Json.Layout) (document : Json) (path : String) (later : List Draft),
        document.Sound → Json.writing.IsCatalog document later →
          (Source.json (l.print 0 document) path).Supplies later := by
  obtain ⟨drafts, hdrafts⟩ := h.exists_supplied
  have hcatalog := hdrafts.catalog_eq
  refine ⟨drafts, hdrafts, fun others => hdrafts.unique, fun id => ?_, fun id => ?_, ?_, ?_, ?_, ?_,
    fun l document path later hsound hholds => .json (Json.parse?_print l hsound) hholds⟩
  · rw [hcatalog, lookup_ofDrafts]
  · rw [hcatalog, lookup_eq_error_iff]
  · rw [hcatalog]
    exact Keyed.size_eq fun _ => mem_keys_ofDrafts
  · intro id entry hentry
    rw [hcatalog] at hentry
    obtain ⟨d, hd, rfl, rfl⟩ := exists_of_mem_ofDrafts hentry
    exact ⟨rfl, isComplete_toEntry d, d, hd, rfl, keeps_toEntry d⟩
  · intro source fault hread
    have hnone (later : List Draft) : ¬source.Supplies later := Source.not_supplies_of_error hread
    refine ⟨?_, hdrafts.unread hnone, hnone⟩
    rw [catalog, hread]
    rfl
  · intro source c
    rw [Source.read_eq_ok_iff]
    refine exists_congr fun later => and_congr_right fun hlater => ?_
    exact (and_iff_left (hdrafts.read hlater)).symm

/-- A document in JSON, a file in TOML with a draft of the same id, and a text that is torn off. -/
theorem catalog_goes_by_history_mixed :
    let document : Json := .obj [("entry", .arr [.obj [("test_id", .str "a"), ("suite", .str "s"),
      ("description", .str "one")]])]
    let printed := Source.json (Json.Layout.indented.print 0 document) "a.json"
    let text := "[[entry]]\ntest_id = \"a\"\nsuite = \"s\"\ndescription = \"two\"\nqe = true\n"
    let files : FileTree := ⟨[([Text.toUtf8 "b.toml"], .file (Text.toUtf8 text))]⟩
    let torn := Source.json "[" "c.json"
    let h := ((History.start.read printed).read (.file files "b.toml")).read torn
    let drafts : List Draft := [⟨"a", "s", "one", "", "", "", false, .none, []⟩,
      ⟨"a", "s", "two", "", "", "", true, .none, []⟩]
    h.Supplied drafts ∧ torn.read = .error (.invalidJson "c.json") ∧ h.catalog.size = 1 ∧
      ∃ entry, h.catalog.lookup "s-a" = .ok entry ∧ entry.description = "two" := by
  intro document printed text files torn h drafts
  obtain ⟨_, -, -, -, -, -, -, -, -, hprinted⟩ := catalog_goes_by_history .start
  have hone : printed.Supplies [⟨"a", "s", "one", "", "", "", false, .none, []⟩] :=
    hprinted _ document _ _ (by simp [document, Json.Sound, Json.SoundItems, Json.SoundMembers])
      ((readDrafts?_eq_some_iff Json.isRead_writing _ _).mp rfl)
  have htext : files.readText (.ofText "b.toml") = .ok text := by decide +kernel
  have htwo : (Source.file files "b.toml").Supplies
      [⟨"a", "s", "two", "", "", "", true, .none, []⟩] :=
    .tomlFile htext (by decide +kernel) (Source.supplies_toml_iff.mpr (by decide +kernel))
  have htorn : torn.read = .error (.invalidJson "c.json") := by
    have hnone : (Json.parse? "[").bind readDrafts? = none := by decide +kernel
    simp only [torn, Source.read, ofJsonText, hnone]
  obtain ⟨others, hothers, hunique, hlookup, -, hsize, -⟩ := catalog_goes_by_history h
  have hdrafts : h.Supplied drafts :=
    ((Supplied.start.read hone).read htwo).unread fun _ => Source.not_supplies_of_error htorn
  obtain rfl := hunique drafts hdrafts
  exact ⟨hdrafts, htorn, hsize.trans rfl, _, hlookup "s-a", rfl⟩

/-- The merged draft has the id of one that was there, and takes its place. -/
example :
    let draft (suite testId reference : String) : Draft :=
      ⟨testId, suite, "", "", "", reference, false, .none, []⟩
    let other : History := .add .start (draft "s-a" "b" " ")
    let h : History := .add (.add .start (draft "s" "a-b" "doc")) (draft "s" "a" "doc")
    (h.merge other).catalog.list.map (fun entry => (entry.identifier.suite, entry.reference)) =
      [("s", "doc"), ("s-a", noReference)] := by
  decide

end History

end Conformance.Catalog
