import Conformance.Keyed
import Mathlib.Data.List.Dedup
import Mathlib.Data.List.Nodup
import Mathlib.Data.List.Perm.Basic

/-!
Maps keyed by text as finite functions. A map is determined by the values of its keys, its keys are
different from one another, and of several insertions under one key the last one counts.
-/
namespace Conformance.Keyed

variable {α β : Type} {m m' : Keyed α}

section Keys

theorem nodup_keys (m : Keyed α) : m.keys.Nodup :=
  List.Pairwise.map Prod.fst (fun _ _ hlt hsame => String.lt_irrefl _ (hsame ▸ hlt)) m.ordered

theorem mem_keys {key : String} : key ∈ m.keys ↔ ∃ value, m.get? key = some value := by
  simp only [get?_eq_some, keys, List.mem_map]
  constructor
  · rintro ⟨⟨k, value⟩, hmem, rfl⟩
    exact ⟨value, hmem⟩
  · rintro ⟨value, hmem⟩
    exact ⟨_, hmem, rfl⟩

/-- A map has as many entries as there are different keys. -/
theorem size_eq {l : List String} (h : ∀ key, key ∈ m.keys ↔ key ∈ l) :
    m.size = l.dedup.length := by
  have hperm : m.keys.Perm l.dedup :=
    (List.perm_ext_iff_of_nodup m.nodup_keys l.nodup_dedup).mpr fun key => by
      rw [h, List.mem_dedup]
  rw [← hperm.length_eq, keys, List.length_map, size]

/-- Maps with the same values are the same. -/
theorem ext_get? (h : ∀ key, m.get? key = m'.get? key) : m = m' := by
  have hmem (e : String × α) : e ∈ m.entries ↔ e ∈ m'.entries := by
    rw [← get?_eq_some, ← get?_eq_some, h]
  have hperm : m.entries.Perm m'.entries :=
    (List.perm_ext_iff_of_nodup m.nodup_keys.of_map m'.nodup_keys.of_map).mpr hmem
  have hentries : m.entries = m'.entries :=
    hperm.eq_of_pairwise (fun _ _ _ _ hlt hgt => absurd hgt (String.lt_asymm hlt))
      m.ordered m'.ordered
  cases m
  cases m'
  cases hentries
  rfl

end Keys

section Insertions

/-- The value of a key after some insertions is the last one inserted under it, or the old one. -/
theorem get?_insertAll_map (m : Keyed α) (f : β → String) (g : β → α) (l : List β)
    (key : String) : (m.insertAll (l.map fun b => (f b, g b))).get? key =
      ((l.reverse.find? (f · == key)).map g).or (m.get? key) := by
  induction l generalizing m with
  | nil => rfl
  | cons b rest ih =>
    refine (ih (m.insert (f b) (g b))).trans ?_
    rw [List.reverse_cons, List.find?_append, Option.map_or, Option.or_assoc]
    congr 1
    by_cases hkey : f b = key
    · subst hkey
      simp
    · rw [get?_insert_of_ne m (g b) (Ne.symm hkey), List.find?_singleton,
        if_neg (by simpa using hkey)]
      rfl

theorem mem_keys_ofList {key : String} {l : List (String × α)} :
    key ∈ (ofList l).keys ↔ key ∈ l.map Prod.fst := by
  rw [mem_keys, List.mem_map]
  constructor
  · rintro ⟨value, h⟩
    rcases mem_insertAll (get?_eq_some.mp h) with hmem | ⟨hnone, -⟩
    · exact ⟨(key, value), hmem, rfl⟩
    · cases hnone
  · intro h
    obtain ⟨a, -, -, hvalue⟩ := exists_get?_insertAll empty h
    exact ⟨a.2, hvalue⟩

/-- Inserting all of another map lets its values count where it has any. -/
theorem get?_insertAll_entries (m other : Keyed α) (key : String) :
    (m.insertAll other.entries).get? key = (other.get? key).or (m.get? key) := by
  cases hvalue : other.get? key with
  | none =>
    refine get?_insertAll_of_ne m fun a ha hkey => ?_
    rw [← hkey, get?_eq_some.mpr ha] at hvalue
    cases hvalue
  | some value =>
    obtain ⟨a, ha, rfl, hlast⟩ :=
      m.exists_get?_insertAll ⟨_, get?_eq_some.mp hvalue, rfl⟩
    rw [hlast, ← hvalue, get?_eq_some.mpr ha, Option.some_or]

theorem insertInto_of_forall_lt {key : String} {value : α} {l : List (String × α)}
    (h : ∀ a ∈ l, a.1 < key) : insertInto key value l = l ++ [(key, value)] := by
  induction l with
  | nil => rfl
  | cons a rest ih =>
    obtain ⟨ha, hrest⟩ := List.forall_mem_cons.1 h
    rw [insertInto, if_neg (String.lt_asymm ha), if_pos ha, ih hrest, List.cons_append]

/-- Entries that come in the order of their keys are all kept, after those of smaller keys. -/
theorem entries_insertAll (m : Keyed α) {l : List (String × α)}
    (h : (m.entries ++ l).Pairwise fun a b => a.1 < b.1) :
    (m.insertAll l).entries = m.entries ++ l := by
  induction l generalizing m with
  | nil => simp [insertAll]
  | cons a rest ih =>
    have hlast : (m.insert a.1 a.2).entries = m.entries ++ [a] :=
      insertInto_of_forall_lt fun b hb => (List.pairwise_append.1 h).2.2 b hb a List.mem_cons_self
    rw [List.append_cons, ← hlast] at h
    have hrest : ((m.insert a.1 a.2).insertAll rest).entries = _ := ih _ h
    rw [hlast, ← List.append_cons] at hrest
    exact hrest

theorem ofList_entries (m : Keyed α) : ofList m.entries = m := by
  have hall : (ofList m.entries).entries = m.entries := entries_insertAll empty m.ordered
  cases m
  cases hlist : ofList _
  simpa [hlist] using hall

end Insertions

section Values

end Values

end Conformance.Keyed
