/-!
Maps keyed by text, kept in the order of their keys. Equal maps are equal lists, and a later value
of a key takes the place of the earlier one.
-/
namespace Conformance

structure Keyed (α : Type) where
  entries : List (String × α)
  ordered : entries.Pairwise fun a b => a.1 < b.1

namespace Keyed

variable {α : Type}

theorem eq_of_not_lt {a b : String} (h : ¬a < b) (h' : ¬b < a) : a = b :=
  String.le_antisymm (String.not_lt.1 h') (String.not_lt.1 h)

def insertInto (key : String) (value : α) : List (String × α) → List (String × α)
  | [] => [(key, value)]
  | (k, v) :: rest =>
    if key < k then (key, value) :: (k, v) :: rest
    else if k < key then (k, v) :: insertInto key value rest
    else (key, value) :: rest

theorem mem_insertInto {key : String} {value : α} {l : List (String × α)} {e : String × α}
    (h : e ∈ insertInto key value l) : e = (key, value) ∨ e ∈ l := by
  induction l with
  | nil => simpa [insertInto] using h
  | cons a rest ih =>
    unfold insertInto at h
    split at h
    · simpa using h
    · split at h
      · rcases List.mem_cons.1 h with h | h
        · simp [h]
        · rcases ih h with h | h <;> simp [h]
      · rcases List.mem_cons.1 h with h | h <;> simp [h]

theorem ordered_insertInto (key : String) (value : α) {l : List (String × α)}
    (h : l.Pairwise fun a b => a.1 < b.1) :
    (insertInto key value l).Pairwise fun a b => a.1 < b.1 := by
  induction l with
  | nil => simp [insertInto]
  | cons a rest ih =>
    obtain ⟨ha, hrest⟩ := List.pairwise_cons.1 h
    unfold insertInto
    split
    · next hlt =>
      refine List.pairwise_cons.2 ⟨fun e he => ?_, h⟩
      rcases List.mem_cons.1 he with rfl | he
      · exact hlt
      · exact String.lt_trans hlt (ha e he)
    · split
      · next hlt =>
        refine List.pairwise_cons.2 ⟨fun e he => ?_, ih hrest⟩
        rcases mem_insertInto he with rfl | he
        · exact hlt
        · exact ha e he
      · next hge hle =>
        refine List.pairwise_cons.2 ⟨fun e he => ?_, hrest⟩
        rw [eq_of_not_lt hge hle]
        exact ha e he

def empty : Keyed α := ⟨[], .nil⟩

def insert (m : Keyed α) (key : String) (value : α) : Keyed α :=
  ⟨insertInto key value m.entries, ordered_insertInto key value m.ordered⟩

def get? (m : Keyed α) (key : String) : Option α := m.entries.lookup key

def size (m : Keyed α) : Nat := m.entries.length

def values (m : Keyed α) : List α := m.entries.map Prod.snd

def keys (m : Keyed α) : List String := m.entries.map Prod.fst

/-- The last value given for a key is the one kept. -/
def insertAll (m : Keyed α) (entries : List (String × α)) : Keyed α :=
  entries.foldl (fun m e => m.insert e.1 e.2) m

def ofList (entries : List (String × α)) : Keyed α := empty.insertAll entries

theorem lookup_insertInto_self (key : String) (value : α) (l : List (String × α)) :
    (insertInto key value l).lookup key = some value := by
  induction l with
  | nil => simp [insertInto]
  | cons a rest ih =>
    obtain ⟨k, v⟩ := a
    unfold insertInto
    split
    · simp
    · split
      · next hlt =>
        have : (key == k) = false := by
          simpa using fun h : key = k => String.lt_irrefl _ (h ▸ hlt)
        simpa [List.lookup_cons, this] using ih
      · simp

theorem lookup_insertInto_of_ne {key other : String} (value : α) (l : List (String × α))
    (h : other ≠ key) : (insertInto key value l).lookup other = l.lookup other := by
  have hne : (other == key) = false := by simpa using h
  induction l with
  | nil => simp [insertInto, List.lookup_cons, hne]
  | cons a rest ih =>
    obtain ⟨k, v⟩ := a
    unfold insertInto
    split
    · simp [List.lookup_cons, hne]
    · split
      · simp [List.lookup_cons, ih]
      · next hge hle =>
        have : (other == k) = false := by rw [← eq_of_not_lt hge hle]; exact hne
        simp [List.lookup_cons, hne, this]

@[simp] theorem get?_insert_self (m : Keyed α) (key : String) (value : α) :
    (m.insert key value).get? key = some value := lookup_insertInto_self ..

theorem get?_insert_of_ne (m : Keyed α) {key other : String} (value : α) (h : other ≠ key) :
    (m.insert key value).get? other = m.get? other := lookup_insertInto_of_ne _ _ h

theorem lookup_of_mem {l : List (String × α)} (h : l.Pairwise fun a b => a.1 < b.1)
    {e : String × α} (he : e ∈ l) : l.lookup e.1 = some e.2 := by
  induction l with
  | nil => cases he
  | cons a rest ih =>
    obtain ⟨ha, hrest⟩ := List.pairwise_cons.1 h
    rcases List.mem_cons.1 he with rfl | hmem
    · rw [List.lookup_cons, beq_self_eq_true]
    · have hne : (e.1 == a.1) = false := by
        simpa using fun heq : e.1 = a.1 => String.lt_irrefl _ (heq ▸ ha e hmem)
      rw [List.lookup_cons, hne]
      exact ih hrest hmem

/-- An entry after an insertion is the one inserted, or one of another key. -/
theorem mem_insert {m : Keyed α} {key : String} {value : α} {e : String × α}
    (h : e ∈ (m.insert key value).entries) :
    e = (key, value) ∨ (e ∈ m.entries ∧ e.1 ≠ key) := by
  by_cases hkey : e.1 = key
  · have hself := m.get?_insert_self key value
    rw [get?, ← hkey, lookup_of_mem (m.insert e.1 value).ordered (hkey ▸ h)] at hself
    exact .inl (Prod.ext hkey (Option.some.inj hself))
  · rcases mem_insertInto h with rfl | hmem
    · exact absurd rfl hkey
    · exact .inr ⟨hmem, hkey⟩

theorem insertAll_append (m : Keyed α) (l₁ l₂ : List (String × α)) :
    m.insertAll (l₁ ++ l₂) = (m.insertAll l₁).insertAll l₂ := List.foldl_append

/-- An entry after some insertions is one of those inserted, or of another key than all of them. -/
theorem mem_insertAll {m : Keyed α} {l : List (String × α)} {e : String × α}
    (h : e ∈ (m.insertAll l).entries) : e ∈ l ∨ (e ∈ m.entries ∧ ∀ a ∈ l, a.1 ≠ e.1) := by
  induction l generalizing m with
  | nil => exact .inr ⟨h, nofun⟩
  | cons a rest ih =>
    rcases ih h with hlater | ⟨hfirst, hother⟩
    · exact .inl (List.mem_cons_of_mem a hlater)
    · rcases mem_insert hfirst with rfl | ⟨hold, hne⟩
      · exact .inl List.mem_cons_self
      · exact .inr ⟨hold, List.forall_mem_cons.mpr ⟨Ne.symm hne, hother⟩⟩

theorem get?_eq_some {m : Keyed α} {key : String} {value : α} :
    m.get? key = some value ↔ (key, value) ∈ m.entries := by
  refine ⟨fun h => ?_, fun h => lookup_of_mem m.ordered h⟩
  obtain ⟨l₁, l₂, hsplit, -⟩ := List.lookup_eq_some_iff.1 h
  rw [hsplit]
  exact List.mem_append_right l₁ List.mem_cons_self

theorem get?_insertAll_of_ne (m : Keyed α) {key : String} {l : List (String × α)}
    (h : ∀ a ∈ l, a.1 ≠ key) : (m.insertAll l).get? key = m.get? key := by
  induction l generalizing m with
  | nil => rfl
  | cons a rest ih =>
    obtain ⟨ha, hrest⟩ := List.forall_mem_cons.mp h
    exact (ih _ hrest).trans (get?_insert_of_ne m a.2 (Ne.symm ha))

theorem exists_get?_insertAll (m : Keyed α) {key : String} {l : List (String × α)}
    (h : ∃ a ∈ l, a.1 = key) : ∃ a ∈ l, a.1 = key ∧ (m.insertAll l).get? key = some a.2 := by
  induction l generalizing m with
  | nil =>
    obtain ⟨a, ha, -⟩ := h
    cases ha
  | cons a rest ih =>
    by_cases hlater : ∃ b ∈ rest, b.1 = key
    · obtain ⟨b, hb, hkey, hvalue⟩ := ih (m.insert a.1 a.2) hlater
      exact ⟨b, List.mem_cons_of_mem a hb, hkey, hvalue⟩
    · obtain ⟨b, hb, hkey⟩ := h
      have hother : ∀ c ∈ rest, c.1 ≠ key := fun c hc hsame => hlater ⟨c, hc, hsame⟩
      rcases List.mem_cons.mp hb with rfl | hb
      · subst hkey
        refine ⟨b, List.mem_cons_self, rfl, ?_⟩
        exact (get?_insertAll_of_ne _ hother).trans (get?_insert_self m b.1 b.2)
      · exact absurd hkey (hother b hb)

end Keyed

end Conformance
