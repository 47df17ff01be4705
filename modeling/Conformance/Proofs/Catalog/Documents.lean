import Conformance.Catalog.Reading
import Conformance.Json.Fields
import Conformance.Toml.Value
import Mathlib.Data.List.Forall2

/-!
Which drafts a document holds, told without its readers. A format is described by how the parts of a
document are written in it: texts, flags, lists, cases and the fields of a record. A draft looks the
same in all formats. The readers give exactly the drafts that are written.
-/
namespace Conformance

/-- How the parts of a document are written in a data format. -/
structure Writing (δ : Type) where
  IsText : δ → String → Prop
  IsFlag : δ → Bool → Prop
  IsList : δ → List δ → Prop
  IsNull : δ → Prop
  IsCase : δ → String → Prop
  /-- A record with fields of these names, each of which is given or missing. -/
  IsRecord : List String → δ → List (Option δ) → Prop

namespace Json

/-- A member of an object that is called like no other one, or the lack of such a member. -/
inductive IsField (members : List (String × Json)) (name : String) : Option Json → Prop
  | missing (h : ∀ m ∈ members, m.1 ≠ name) : IsField members name none
  | given {before after : List (String × Json)} {v : Json}
      (hmembers : members = before ++ (name, v) :: after)
      (hbefore : ∀ m ∈ before, m.1 ≠ name) (hafter : ∀ m ∈ after, m.1 ≠ name) :
      IsField members name (some v)

/-- Fields of an array come in their order, and it may be that the last ones are missing. -/
inductive IsRecord (names : List String) : Json → List (Option Json) → Prop
  | object {members : List (String × Json)} {fields : List (Option Json)}
      (h : List.Forall₂ (IsField members) names fields) : IsRecord names (.obj members) fields
  | array {items : List Json} {missing : Nat} (h : items.length + missing = names.length) :
      IsRecord names (.arr items) (items.map some ++ List.replicate missing none)

def writing : Writing Json where
  IsText v text := v = .str text
  IsFlag v flag := v = .bool flag
  IsList v items := v = .arr items
  IsNull v := v = .null
  IsCase v name := v = .str name ∨ v = .obj [(name, .null)]
  IsRecord := IsRecord

end Json

namespace Toml

/-- A part of a value, which may be the value itself. -/
inductive Within (part : Toml) : Toml → Prop
  | self : Within part part
  | item {byHeaders : Bool} {items : List Toml} {v : Toml} (hv : v ∈ items)
      (h : Within part v) : Within part (.arr byHeaders items)
  | member {origin : Origin} {members : List (String × Toml)} {m : String × Toml}
      (hm : m ∈ members) (h : Within part m.2) : Within part (.table origin members)

/-- The first member of a table that is called so, or the lack of such a member. -/
inductive IsField (members : List (String × Toml)) (name : String) : Option Toml → Prop
  | missing (h : ∀ m ∈ members, m.1 ≠ name) : IsField members name none
  | given {before after : List (String × Toml)} {v : Toml}
      (hmembers : members = before ++ (name, v) :: after) (hbefore : ∀ m ∈ before, m.1 ≠ name) :
      IsField members name (some v)

/-- Every number in the other members of a table has a value. Fields of an array come in their
order; it may be that the last ones are missing, or that there is more. A moment has no fields. -/
inductive IsRecord (names : List String) : Toml → List (Option Toml) → Prop
  | table {origin : Origin} {members : List (String × Toml)} {fields : List (Option Toml)}
      (h : List.Forall₂ (IsField members) names fields)
      (hothers : ∀ m ∈ members, m.1 ∉ names → ∀ text, ¬Within (.valueless text) m.2) :
      IsRecord names (.table origin members) fields
  | array {byHeaders : Bool} {items : List Toml} {missing : Nat}
      (h : items.length + missing = names.length) :
      IsRecord names (.arr byHeaders items) (items.map some ++ List.replicate missing none)
  | overlong {byHeaders : Bool} {items others : List Toml} (h : items.length = names.length) :
      IsRecord names (.arr byHeaders (items ++ others)) (items.map some)
  | moment (text : String) :
      IsRecord names (.moment text) (List.replicate names.length none)

def writing : Writing Toml where
  IsText v text := v = .str text
  IsFlag v flag := v = .bool flag
  IsList v items := ∃ byHeaders, v = .arr byHeaders items
  IsNull _ := False
  IsCase v name := v = .str name ∨ ∃ origin contents, v = .table origin [(name, contents)] ∧
    ((∃ byHeaders, contents = .arr byHeaders []) ∨ ∃ origin, contents = .table origin [])
  IsRecord := IsRecord

end Toml

namespace Writing

open Catalog

variable {δ : Type} (w : Writing δ) {α : Type}

def IsListOf (is : δ → α → Prop) (v : δ) (values : List α) : Prop :=
  ∃ items, w.IsList v items ∧ List.Forall₂ is items values

/-- A field that is written so, or is missing and has the default. -/
inductive IsOr (is : δ → α → Prop) (default : α) : Option δ → α → Prop
  | missing : IsOr is default none default
  | given {v : δ} {a : α} (h : is v a) : IsOr is default (some v) a

inductive IsOptional (is : δ → α → Prop) : Option δ → Option α → Prop
  | missing : IsOptional is none none
  | null {v : δ} (h : w.IsNull v) : IsOptional is (some v) none
  | given {v : δ} {a : α} (hnull : ¬w.IsNull v) (h : is v a) : IsOptional is (some v) (some a)

inductive IsClassification : δ → Classification → Prop
  | mandatory {v : δ} (h : w.IsCase v "Mandatory") : IsClassification v .mandatory
  | optional {v : δ} (h : w.IsCase v "Optional") : IsClassification v .optional

inductive IsCategories : δ → Categories → Prop
  | record {v : δ} {extended farEdge nonTelco telco : Option δ} {c : Categories}
      (hrecord : w.IsRecord ["Extended", "FarEdge", "NonTelco", "Telco"] v
        [extended, farEdge, nonTelco, telco])
      (hextended : w.IsOptional w.IsClassification extended c.extended)
      (hfarEdge : w.IsOptional w.IsClassification farEdge c.farEdge)
      (hnonTelco : w.IsOptional w.IsClassification nonTelco c.nonTelco)
      (htelco : w.IsOptional w.IsClassification telco c.telco) : IsCategories v c

/-- A draft has an id, a suite and a description; the rest may be missing. -/
inductive IsDraft : δ → Draft → Prop
  | record {v testId suite description : δ}
      {remediation process reference qe categories tags : Option δ} {d : Draft}
      (hrecord : w.IsRecord
        ["test_id", "suite", "description", "remediation", "exception_process",
          "best_practice_reference", "qe", "category_classification", "tags"] v
        [some testId, some suite, some description, remediation, process, reference, qe,
          categories, tags])
      (htestId : w.IsText testId d.testId) (hsuite : w.IsText suite d.suite)
      (hdescription : w.IsText description d.description)
      (hremediation : IsOr w.IsText "" remediation d.remediation)
      (hprocess : IsOr w.IsText "" process d.exceptionProcess)
      (hreference : IsOr w.IsText "" reference d.reference)
      (hqe : IsOr w.IsFlag false qe d.qe)
      (hcategories : IsOr w.IsCategories ⟨none, none, none, none⟩ categories d.categories)
      (htags : IsOr (w.IsListOf w.IsText) [] tags d.tags) : IsDraft v d

/-- A catalog document has the list of its drafts as its only field. -/
inductive IsCatalog : δ → List Draft → Prop
  | record {v : δ} {entries : Option δ} {drafts : List Draft}
      (hrecord : w.IsRecord ["entry"] v [entries])
      (hentries : IsOr (w.IsListOf w.IsDraft) [] entries drafts) : IsCatalog v drafts

end Writing

section Reading

open DataFormat

variable {δ : Type} [DataFormat δ] {w : Writing δ} {α : Type}

/-- The parts of a document are read as they are written. -/
structure Writing.IsRead (w : Writing δ) : Prop where
  text (v : δ) (text : String) : text? v = some text ↔ w.IsText v text
  flag (v : δ) (flag : Bool) : flag? v = some flag ↔ w.IsFlag v flag
  list (v : δ) (items : List δ) : items? v = some items ↔ w.IsList v items
  null (v : δ) : isNull v = true ↔ w.IsNull v
  case (v : δ) (name : String) : case? v = some name ↔ w.IsCase v name
  record (names : List String) (v : δ) (fields : List (Option δ)) :
    fields? names v = some fields ↔ w.IsRecord names v fields

namespace DataFormat

omit [DataFormat δ] in
theorem mapM_eq_some_iff {f : δ → Option α} {is : δ → α → Prop}
    (hf : ∀ v a, f v = some a ↔ is v a) {items : List δ} {values : List α} :
    items.mapM f = some values ↔ List.Forall₂ is items values := by
  induction items generalizing values with
  | nil =>
    rw [List.mapM_nil, List.forall₂_nil_left_iff]
    exact ⟨fun h => (Option.some.inj h).symm, fun h => congrArg some h.symm⟩
  | cons v items ih =>
    rw [List.mapM_cons, Option.bind_eq_bind, Option.bind_eq_some_iff,
      List.forall₂_cons_left_iff]
    constructor
    · rintro ⟨a, ha, hrest⟩
      obtain ⟨rest, hvalues, hdone⟩ := Option.bind_eq_some_iff.mp hrest
      exact ⟨a, rest, (hf v a).mp ha, ih.mp hvalues, (Option.some.inj hdone).symm⟩
    · rintro ⟨a, rest, ha, hrest, rfl⟩
      exact ⟨a, (hf v a).mpr ha, Option.bind_eq_some_iff.mpr ⟨rest, ih.mpr hrest, rfl⟩⟩

theorem list?_eq_some_iff (hw : w.IsRead) {f : δ → Option α} {is : δ → α → Prop}
    (hf : ∀ v a, f v = some a ↔ is v a) (v : δ) (values : List α) :
    list? f v = some values ↔ w.IsListOf is v values := by
  rw [list?, Option.bind_eq_bind, Option.bind_eq_some_iff]
  exact exists_congr fun items => and_congr (hw.list v items) (mapM_eq_some_iff hf)

omit [DataFormat δ] in
theorem default?_eq_some_iff {f : δ → Option α} {is : δ → α → Prop}
    (hf : ∀ v a, f v = some a ↔ is v a) (value : α) (field : Option δ) (a : α) :
    default? f value field = some a ↔ Writing.IsOr is value field a := by
  cases field with
  | none =>
    constructor
    · rintro ⟨⟩
      exact .missing
    · rintro ⟨⟩
      rfl
  | some v =>
    constructor
    · exact fun h => .given ((hf v a).mp h)
    · rintro (_ | h)
      exact (hf v a).mpr h

theorem optional?_eq_some_iff (hw : w.IsRead) {f : δ → Option α} {is : δ → α → Prop}
    (hf : ∀ v a, f v = some a ↔ is v a) (field : Option δ) (o : Option α) :
    optional? f field = some o ↔ w.IsOptional is field o := by
  cases field with
  | none =>
    constructor
    · rintro ⟨⟩
      exact .missing
    · rintro ⟨⟩
      rfl
  | some v =>
    have hnull := hw.null v
    cases hisNull : isNull v with
    | true =>
      rw [optional?, hisNull, if_pos rfl]
      have hv := hnull.mp hisNull
      constructor
      · rintro ⟨⟩
        exact .null hv
      · rintro (_ | _ | h)
        · rfl
        · exact absurd hv h
    | false =>
      rw [optional?, hisNull, if_neg Bool.false_ne_true, Option.map_eq_some_iff]
      have hv : ¬w.IsNull v := fun h => by simp [hnull.mpr h] at hisNull
      constructor
      · rintro ⟨a, ha, rfl⟩
        exact .given hv ((hf v a).mp ha)
      · rintro (_ | h | ⟨-, h⟩)
        · exact absurd h hv
        · exact ⟨_, (hf v _).mpr h, rfl⟩

end DataFormat

namespace Catalog

theorem Classification.read?_eq_some_iff (hw : w.IsRead) (v : δ) (c : Classification) :
    read? v = some c ↔ w.IsClassification v c := by
  rw [read?, Option.bind_eq_bind, Option.bind_eq_some_iff]
  constructor
  · rintro ⟨name, hname, hc⟩
    have hcase := (hw.case v name).mp hname
    unfold ofName? at hc
    split_ifs at hc with hmandatory hoptional
    · cases hc
      exact .mandatory (hmandatory ▸ hcase)
    · cases hc
      exact .optional (hoptional ▸ hcase)
  · rintro (h | h)
    · exact ⟨_, (hw.case v _).mpr h, rfl⟩
    · exact ⟨_, (hw.case v _).mpr h, rfl⟩

theorem Categories.read?_eq_some_iff (hw : w.IsRead) (v : δ) (c : Categories) :
    read? v = some c ↔ w.IsCategories v c := by
  have hoptional := optional?_eq_some_iff hw (Classification.read?_eq_some_iff hw)
  rw [read?, Option.bind_eq_bind, Option.bind_eq_some_iff]
  constructor
  · rintro ⟨fields, hfields, h⟩
    split at h
    · rename_i extended farEdge nonTelco telco
      simp only [Option.bind_eq_bind, Option.bind_eq_some_iff, Option.pure_def,
        Option.some.injEq] at h
      obtain ⟨c₁, h₁, c₂, h₂, c₃, h₃, c₄, h₄, rfl⟩ := h
      exact .record ((hw.record ..).mp hfields) ((hoptional ..).mp h₁) ((hoptional ..).mp h₂)
        ((hoptional ..).mp h₃) ((hoptional ..).mp h₄)
    · cases h
  · rintro ⟨hrecord, h₁, h₂, h₃, h₄⟩
    refine ⟨_, (hw.record ..).mpr hrecord, ?_⟩
    simp only [(hoptional ..).mpr h₁, (hoptional ..).mpr h₂, (hoptional ..).mpr h₃,
      (hoptional ..).mpr h₄]
    rfl

theorem Draft.read?_eq_some_iff (hw : w.IsRead) (v : δ) (d : Draft) :
    read? v = some d ↔ w.IsDraft v d := by
  have htext (default : String) := default?_eq_some_iff hw.text default
  have hflag := default?_eq_some_iff hw.flag false
  have hcategories := default?_eq_some_iff (Categories.read?_eq_some_iff hw) .none
  have htags := default?_eq_some_iff (list?_eq_some_iff hw hw.text) []
  rw [read?, Option.bind_eq_bind, Option.bind_eq_some_iff]
  constructor
  · rintro ⟨fields, hfields, h⟩
    split at h
    · simp only [Option.bind_eq_bind, Option.bind_eq_some_iff, Option.pure_def,
        Option.some.injEq] at h
      obtain ⟨testId, h₁, suite, h₂, description, h₃, remediation, h₄, process, h₅, reference, h₆,
        qe, h₇, categories, h₈, tags, h₉, rfl⟩ := h
      exact .record ((hw.record ..).mp hfields) ((hw.text ..).mp h₁) ((hw.text ..).mp h₂)
        ((hw.text ..).mp h₃) ((htext ..).mp h₄) ((htext ..).mp h₅) ((htext ..).mp h₆)
        ((hflag ..).mp h₇) ((hcategories ..).mp h₈) ((htags ..).mp h₉)
    · cases h
  · rintro ⟨hrecord, h₁, h₂, h₃, h₄, h₅, h₆, h₇, h₈, h₉⟩
    refine ⟨_, (hw.record ..).mpr hrecord, ?_⟩
    simp only [(hw.text ..).mpr h₁, (hw.text ..).mpr h₂, (hw.text ..).mpr h₃, (htext ..).mpr h₄,
      (htext ..).mpr h₅, (htext ..).mpr h₆, (hflag ..).mpr h₇, (hcategories ..).mpr h₈,
      (htags ..).mpr h₉]
    rfl

/-- The reader of catalog documents finds the drafts that are written in one, and refuses what is no
such document. -/
theorem readDrafts?_eq_some_iff (hw : w.IsRead) (v : δ) (drafts : List Draft) :
    readDrafts? v = some drafts ↔ w.IsCatalog v drafts := by
  have hentries := default?_eq_some_iff (list?_eq_some_iff hw (Draft.read?_eq_some_iff hw)) []
  rw [readDrafts?, Option.bind_eq_bind, Option.bind_eq_some_iff]
  constructor
  · rintro ⟨fields, hfields, h⟩
    split at h
    · exact .record ((hw.record ..).mp hfields) ((hentries ..).mp h)
    · cases h
  · rintro ⟨hrecord, h⟩
    exact ⟨_, (hw.record ..).mpr hrecord, (hentries ..).mpr h⟩

end Catalog

end Reading

section Fields

theorem forall₂_iff_map_eq {α β : Type} {R : α → β → Prop} {p : α → Prop} {f : α → β}
    (h : ∀ a b, R a b ↔ p a ∧ f a = b) {as : List α} {bs : List β} :
    List.Forall₂ R as bs ↔ (∀ a ∈ as, p a) ∧ as.map f = bs := by
  obtain rfl : R = fun a b => p a ∧ f a = b := funext₂ fun a b => propext (h a b)
  rw [List.forall₂_and_left, ← List.forall₂_map_left_iff (R := (· = ·)), List.forall₂_eq_eq_eq]

theorem length_filter_le_one_iff {δ : Type} {name : String} {before after : List (String × δ)}
    {v : δ} (hbefore : ∀ m ∈ before, m.1 ≠ name) :
    ((before ++ (name, v) :: after).filter (·.1 == name)).length ≤ 1 ↔
      ∀ m ∈ after, m.1 ≠ name := by
  have hnone : before.filter (·.1 == name) = [] := by simpa using hbefore
  rw [List.filter_append, hnone, List.nil_append, List.filter_cons_of_pos (by simp)]
  simp

theorem mapIdx_getElem? {δ : Type} (names : List String) (items : List δ) :
    (names.mapIdx fun i _ => items[i]?) =
      (items.take names.length).map some ++
        List.replicate (names.length - items.length) none := by
  refine List.ext_getElem? fun i => ?_
  rw [List.getElem?_mapIdx, List.getElem?_append, List.getElem?_replicate, List.getElem?_map,
    List.getElem?_take]
  grind

end Fields

namespace Json

theorem isField_iff (members : List (String × Json)) (name : String) (field : Option Json) :
    IsField members name field ↔
      (members.filter (·.1 == name)).length ≤ 1 ∧ members.lookup name = field := by
  constructor
  · rintro (h | ⟨rfl, hbefore, hafter⟩)
    · have hnone : members.filter (·.1 == name) = [] := by simpa using h
      refine ⟨by simp [hnone], List.lookup_eq_none_iff.mpr fun m hm => ?_⟩
      exact bne_iff_ne.mpr (h m hm).symm
    · refine ⟨(length_filter_le_one_iff hbefore).mpr hafter, List.lookup_eq_some_iff.mpr ?_⟩
      exact ⟨_, _, rfl, fun m hm => bne_iff_ne.mpr (hbefore m hm).symm⟩
  · rintro ⟨hone, hlookup⟩
    cases field with
    | none =>
      refine .missing fun m hm => ?_
      exact (bne_iff_ne.mp (List.lookup_eq_none_iff.mp hlookup m hm)).symm
    | some v =>
      obtain ⟨before, after, rfl, hother⟩ := List.lookup_eq_some_iff.mp hlookup
      have hbefore : ∀ m ∈ before, m.1 ≠ name := fun m hm => (bne_iff_ne.mp (hother m hm)).symm
      exact .given rfl hbefore ((length_filter_le_one_iff hbefore).mp hone)

theorem fields?_eq_some_iff (names : List String) (v : Json) (fields : List (Option Json)) :
    fields? names v = some fields ↔ IsRecord names v fields := by
  constructor
  · intro h
    unfold fields? at h
    split at h
    · split_ifs at h with hall
      refine .object ((forall₂_iff_map_eq (isField_iff _)).mpr ⟨fun name hname => ?_, ?_⟩)
      · simpa using List.all_eq_true.mp hall name hname
      · exact Option.some.inj h
    · split_ifs at h with hle
      cases h
      exact .array (Nat.add_sub_of_le hle)
    · cases h
  · rintro (h | h)
    · obtain ⟨hone, rfl⟩ := (forall₂_iff_map_eq (isField_iff _)).mp h
      refine if_pos (List.all_eq_true.mpr fun name hname => ?_)
      simpa using hone name hname
    · rename_i items missing
      have hmissing : names.length - items.length = missing := by omega
      rw [fields?, if_pos (by omega), hmissing]

theorem isRead_writing : writing.IsRead where
  text v text := by cases v <;> simp [DataFormat.text?, str?, writing]
  flag v flag := by cases v <;> simp [DataFormat.flag?, bool?, writing]
  list v items := by cases v <;> simp [DataFormat.items?, items?, writing]
  null v := by cases v <;> simp [DataFormat.isNull, isNull, writing]
  case v name := by
    change case? v = some name ↔ v = .str name ∨ v = .obj [(name, .null)]
    unfold case?
    split <;> simp_all
  record := fields?_eq_some_iff

end Json

namespace Toml

theorem isField_iff (members : List (String × Toml)) (name : String) (field : Option Toml) :
    IsField members name field ↔ True ∧ members.lookup name = field := by
  constructor
  · rintro (h | ⟨rfl, hbefore⟩)
    · exact ⟨trivial, List.lookup_eq_none_iff.mpr fun m hm => bne_iff_ne.mpr (h m hm).symm⟩
    · refine ⟨trivial, List.lookup_eq_some_iff.mpr ⟨_, _, rfl, fun m hm => ?_⟩⟩
      exact bne_iff_ne.mpr (hbefore m hm).symm
  · rintro ⟨-, hlookup⟩
    cases field with
    | none =>
      refine .missing fun m hm => ?_
      exact (bne_iff_ne.mp (List.lookup_eq_none_iff.mp hlookup m hm)).symm
    | some v =>
      obtain ⟨before, after, rfl, hother⟩ := List.lookup_eq_some_iff.mp hlookup
      exact .given rfl fun m hm => (bne_iff_ne.mp (hother m hm)).symm

mutual
theorem isSound_iff (v : Toml) : v.isSound = true ↔ ∀ text, ¬Within (.valueless text) v := by
  match v with
  | .valueless text => exact ⟨nofun, fun h => absurd .self (h text)⟩
  | .arr byHeaders items =>
    rw [isSound, areSound_iff items]
    constructor
    · rintro h text (_ | ⟨hv, hwithin⟩)
      exact h _ hv text hwithin
    · exact fun h v hv text hwithin => h text (.item hv hwithin)
  | .table origin members =>
    rw [isSound, haveSound_iff members]
    constructor
    · rintro h text (_ | _ | ⟨hm, hwithin⟩)
      exact h _ hm text hwithin
    · exact fun h m hm text hwithin => h text (.member hm hwithin)
  | .bool _ | .int _ | .float _ | .moment _ | .str _ => exact ⟨fun _ _ => nofun, fun _ => rfl⟩

theorem areSound_iff (items : List Toml) :
    areSound items = true ↔ ∀ v ∈ items, ∀ text, ¬Within (.valueless text) v := by
  match items with
  | [] => simp [areSound]
  | v :: rest =>
    rw [areSound, Bool.and_eq_true, isSound_iff v, areSound_iff rest, List.forall_mem_cons]

theorem haveSound_iff (members : List (String × Toml)) :
    haveSound members = true ↔ ∀ m ∈ members, ∀ text, ¬Within (.valueless text) m.2 := by
  match members with
  | [] => simp [haveSound]
  | (name, v) :: rest =>
    rw [haveSound, Bool.and_eq_true, isSound_iff v, haveSound_iff rest, List.forall_mem_cons]
end

theorem fields?_eq_some_iff (names : List String) (v : Toml) (fields : List (Option Toml)) :
    fields? names v = some fields ↔ IsRecord names v fields := by
  constructor
  · intro h
    unfold fields? at h
    split at h
    · rename_i members
      split_ifs at h with hsound
      refine .table ?_ fun m hm hother => ?_
      · exact (forall₂_iff_map_eq (isField_iff _)).mpr ⟨fun _ _ => trivial, Option.some.inj h⟩
      · refine (haveSound_iff _).mp hsound m (List.mem_filter.mpr ⟨hm, ?_⟩)
        simpa using hother
    · rename_i byHeaders items
      rw [mapIdx_getElem?] at h
      rcases Nat.le_total items.length names.length with hle | hle
      · rw [List.take_of_length_le hle] at h
        cases h
        exact .array (Nat.add_sub_of_le hle)
      · rw [Nat.sub_eq_zero_of_le hle, List.replicate_zero, List.append_nil] at h
        cases h
        have hrecord : IsRecord names
            (.arr byHeaders (items.take names.length ++ items.drop names.length)) _ :=
          .overlong (List.length_take_of_le hle)
        rwa [List.take_append_drop] at hrecord
    · cases h
      rw [List.map_const']
      exact .moment _
    · cases h
  · rintro (⟨h, hothers⟩ | h | h | text)
    · obtain ⟨-, rfl⟩ := (forall₂_iff_map_eq (isField_iff _)).mp h
      refine if_pos ((haveSound_iff _).mpr fun m hm => ?_)
      obtain ⟨hm, hother⟩ := List.mem_filter.mp hm
      exact hothers m hm (by simpa using hother)
    · rename_i items missing
      have hmissing : names.length - items.length = missing := by omega
      rw [fields?, mapIdx_getElem?, List.take_of_length_le (by omega), hmissing]
    · rename_i items others
      have hnone : names.length - (items ++ others).length = 0 := by
        rw [List.length_append]
        omega
      rw [fields?, mapIdx_getElem?, hnone, ← h, List.take_left, List.replicate_zero,
        List.append_nil]
    · rw [fields?, List.map_const']

theorem isEmpty_iff (v : Toml) : v.isEmpty = true ↔
    (∃ byHeaders, v = .arr byHeaders []) ∨ ∃ origin, v = .table origin [] := by
  constructor
  · intro h
    unfold isEmpty at h
    split at h
    · exact .inl ⟨_, rfl⟩
    · exact .inr ⟨_, rfl⟩
    · cases h
  · rintro (⟨byHeaders, rfl⟩ | ⟨origin, rfl⟩) <;> rfl

theorem case?_eq_some_iff (v : Toml) (name : String) :
    case? v = some name ↔ writing.IsCase v name := by
  constructor
  · intro h
    unfold case? at h
    split at h
    · exact .inl (congrArg Toml.str (Option.some.inj h))
    · split_ifs at h with hempty
      cases h
      exact .inr ⟨_, _, rfl, (isEmpty_iff _).mp hempty⟩
    · cases h
  · rintro (rfl | ⟨origin, contents, rfl, hempty⟩)
    · rfl
    · exact if_pos ((isEmpty_iff contents).mpr hempty)

theorem isRead_writing : writing.IsRead where
  text v text := by cases v <;> simp [DataFormat.text?, str?, writing]
  flag v flag := by cases v <;> simp [DataFormat.flag?, bool?, writing]
  list v items := by
    constructor
    · intro h
      cases v with
      | arr byHeaders => exact ⟨byHeaders, congrArg (Toml.arr byHeaders) (Option.some.inj h)⟩
      | _ => cases h
    · rintro ⟨byHeaders, rfl⟩
      rfl
  null v := by simp [DataFormat.isNull, writing]
  case := case?_eq_some_iff
  record := fields?_eq_some_iff

end Toml

end Conformance
