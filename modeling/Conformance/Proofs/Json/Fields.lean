import Conformance.Json.Fields
import Conformance.Proofs.Json.Tokens

/-!
Reading the parts of a record: its fields by name, lists, optional values and numbers of limited
size. Each part is read as what it was written for.
-/
namespace Conformance.Json

/-! Soundness of lists of values -/

theorem soundItems_iff {vs : List Json} : SoundItems vs ↔ ∀ v ∈ vs, v.Sound := by
  induction vs with
  | nil => simp [SoundItems]
  | cons v vs ih => simp [SoundItems, ih]

theorem soundMembers_iff {ms : List (String × Json)} :
    SoundMembers ms ↔ ∀ m ∈ ms, m.2.Sound := by
  induction ms with
  | nil => simp [SoundMembers]
  | cons m ms ih => simp [SoundMembers, ih]

theorem sound_strings (texts : List String) : (strings texts).Sound := by
  rw [strings, Sound, soundItems_iff]
  intro v hv
  obtain ⟨s, -, rfl⟩ := List.mem_map.1 hv
  trivial

theorem sound_ofOption {α : Type} {f : α → Json} (h : ∀ a, (f a).Sound) (o : Option α) :
    (ofOption f o).Sound := by
  cases o with
  | none => trivial
  | some a => exact h a

/-! Fields -/

/-- In an object without repeated keys, every field has the value of its member. -/
theorem fields?_obj {members : List (String × Json)} (h : (members.map Prod.fst).Nodup)
    (names : List String) :
    fields? names (.obj members) = some (names.map fun name => members.lookup name) := by
  rw [fields?, if_pos]
  refine List.all_eq_true.2 fun name _ => decide_eq_true ?_
  have hcount : (members.map Prod.fst).count name ≤ 1 := List.nodup_iff_count.1 h name
  rwa [List.count_eq_countP, List.countP_map, List.countP_eq_length_filter] at hcount

/-! Lists and optional values -/

variable {α : Type} {f : Json → Option α} {g : α → Json}

theorem mapM_map_eq_some {β : Type} {f : β → Option α} {g : α → β} {l : List α}
    (h : ∀ a ∈ l, f (g a) = some a) : (l.map g).mapM f = some l := by
  induction l with
  | nil => rfl
  | cons a l ih =>
    rw [List.forall_mem_cons] at h
    simp [h.1, ih h.2]

theorem list?_arr {l : List α} (h : ∀ a ∈ l, f (g a) = some a) :
    DataFormat.list? f (.arr (l.map g)) = some l :=
  mapM_map_eq_some h

theorem optional?_ofOption {o : Option α} (h : ∀ a ∈ o, f (g a) = some a)
    (hnull : ∀ a, (g a).isNull = false) :
    DataFormat.optional? f (some (ofOption g o)) = some o := by
  cases o with
  | none => rfl
  | some a =>
    have hvalue : DataFormat.isNull (g a) = false := hnull a
    simp [DataFormat.optional?, ofOption, hvalue, h a rfl]

/-! Numbers of limited size -/

theorem natBelow?_int {limit n : Nat} (h : n < limit) : (int n).natBelow? limit = some n := by
  simp [natBelow?, nat?, h]

theorem uint32?_toNat (n : UInt32) : (int n.toNat).uint32? = some n := by
  simp [uint32?, natBelow?_int n.toNat_lt]

theorem uint64?_toNat (n : UInt64) : (int n.toNat).uint64? = some n := by
  simp [uint64?, natBelow?_int n.toNat_lt]

theorem int64?_toInt (n : Int64) : (int n.toInt).int64? = some n := by
  have hrange := And.intro n.minValue_le_toInt n.toInt_le
  simp only [int64?, int?, Option.bind_eq_bind, Option.bind_some, if_pos hrange, Int64.ofInt_toInt]
  rfl

end Conformance.Json
