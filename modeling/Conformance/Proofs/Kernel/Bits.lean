import Conformance.Kernel.Taint
import Mathlib.Data.List.Basic

/-!
Which bits the letters of modules stand for, and which bits of a mask no module accounts for.
-/
namespace Conformance.Kernel

/-- A letter of some taint of the table. -/
def Known (letter : Char) : Prop := ∃ taint ∈ knownTaints, letter ∈ taint.letters

/-- A module accounts for a bit if one of its letters stands for it. -/
def Explains (m : String × String) (bit : Nat) : Prop :=
  ∃ letter ∈ m.2.toList, letterBit letter = .ok bit

theorem known_iff {letter : Char} : Known letter ↔ ∃ bit, letterBit letter = .ok bit := by
  unfold letterBit ofLetter?
  cases hfind : knownTaints.find? (·.letters.contains letter) with
  | none =>
    refine ⟨fun ⟨taint, htaint, hletter⟩ => ?_, fun ⟨bit, h⟩ => by cases h⟩
    exact absurd (List.elem_eq_true_of_mem hletter) (List.find?_eq_none.mp hfind taint htaint)
  | some taint =>
    refine ⟨fun _ => ⟨taint.bit, rfl⟩, fun _ => ⟨taint, List.mem_of_find?_eq_some hfind, ?_⟩⟩
    have hcontains := List.find?_some hfind
    exact List.elem_iff.mp hcontains

/-! ### Bits in ascending order -/

theorem mem_insertBit {bit b : Nat} {bits : List Nat} :
    b ∈ insertBit bit bits ↔ b = bit ∨ b ∈ bits := by
  induction bits with
  | nil => simp [insertBit]
  | cons first rest ih =>
    unfold insertBit
    split
    · exact List.mem_cons
    · split
      · rw [List.mem_cons, ih, List.mem_cons]
        exact or_left_comm
      · have hfirst : first = bit := by omega
        rw [hfirst, List.mem_cons]
        exact ⟨.inr, fun h => h.elim .inl id⟩

theorem mem_setBits {mask : UInt64} {bit : Nat} :
    bit ∈ setBits mask ↔ mask.toNat.testBit bit = true := by
  rw [setBits, List.mem_filter, List.mem_range, and_iff_right_iff_imp]
  intro hset
  by_contra hge
  have hbound : mask.toNat < 2 ^ bit :=
    Nat.lt_of_lt_of_le mask.toNat_lt (Nat.pow_le_pow_right Nat.two_pos (Nat.le_of_not_lt hge))
  rw [Nat.testBit_lt_two_pow hbound] at hset
  cases hset

theorem pairwise_setBits (mask : UInt64) : (setBits mask).Pairwise (· < ·) :=
  List.pairwise_lt_range.filter _

theorem mem_otherBits {mask : UInt64} {bits : List Nat} {bit : Nat} :
    bit ∈ otherBits mask bits ↔ mask.toNat.testBit bit = true ∧ bit ∉ bits := by
  rw [otherBits, List.mem_filter, mem_setBits, Bool.not_eq_true', List.contains_eq_mem,
    decide_eq_false_iff_not]

theorem pairwise_otherBits (mask : UInt64) (bits : List Nat) :
    (otherBits mask bits).Pairwise (· < ·) :=
  (pairwise_setBits mask).filter _

/-! ### The bits of modules -/

/-- The letters of a module add the bits that they stand for, if all of them stand for one. -/
theorem exists_moduleBitsFrom (module : String) (letters : List Char) (bits : List Nat)
    (h : ∀ letter ∈ letters, Known letter) :
    ∃ all, moduleBitsFrom module bits letters = .ok all ∧
      ∀ b, b ∈ all ↔ b ∈ bits ∨ ∃ letter ∈ letters, letterBit letter = .ok b := by
  induction letters generalizing bits with
  | nil => exact ⟨bits, rfl, fun b => by simp⟩
  | cons letter rest ih =>
    obtain ⟨hletter, hrest⟩ := List.forall_mem_cons.mp h
    obtain ⟨bit, hbit⟩ := known_iff.mp hletter
    obtain ⟨all, hall, hmem⟩ := ih (insertBit bit bits) hrest
    refine ⟨all, by rw [moduleBitsFrom, hbit]; exact hall, fun b => ?_⟩
    rw [hmem b, mem_insertBit, List.exists_mem_cons_iff, hbit, Except.ok.injEq, or_assoc,
      or_left_comm, eq_comm]

theorem known_of_moduleBitsFrom {module : String} {letters : List Char} {bits all : List Nat}
    (h : moduleBitsFrom module bits letters = .ok all) : ∀ letter ∈ letters, Known letter := by
  induction letters generalizing bits with
  | nil => exact nofun
  | cons letter rest ih =>
    rw [moduleBitsFrom] at h
    split at h
    · next bit hbit => exact List.forall_mem_cons.mpr ⟨known_iff.mpr ⟨bit, hbit⟩, ih h⟩
    · cases h

theorem modulesBitsFrom_cons_of_ok {m : String × String} {rest : List (String × String)}
    {bits own : List Nat} (h : moduleBitsFrom m.1 bits m.2.toList = .ok own) :
    modulesBitsFrom bits (m :: rest) = modulesBitsFrom own rest := by
  rw [modulesBitsFrom, h]
  rfl

theorem modulesBitsFrom_cons_of_error {m : String × String} {rest : List (String × String)}
    {bits : List Nat} {fault : LetterFault}
    (h : moduleBitsFrom m.1 bits m.2.toList = .error fault) :
    modulesBitsFrom bits (m :: rest) = .error fault := by
  rw [modulesBitsFrom, h]
  rfl

theorem exists_modulesBitsFrom (modules : List (String × String)) (bits : List Nat)
    (h : ∀ m ∈ modules, ∀ letter ∈ m.2.toList, Known letter) :
    ∃ all, modulesBitsFrom bits modules = .ok all ∧
      ∀ b, b ∈ all ↔ b ∈ bits ∨ ∃ m ∈ modules, Explains m b := by
  induction modules generalizing bits with
  | nil => exact ⟨bits, rfl, fun b => by simp⟩
  | cons m rest ih =>
    obtain ⟨hm, hrest⟩ := List.forall_mem_cons.mp h
    obtain ⟨own, hown, hmemOwn⟩ := exists_moduleBitsFrom m.1 m.2.toList bits hm
    obtain ⟨all, hall, hmem⟩ := ih own hrest
    refine ⟨all, (modulesBitsFrom_cons_of_ok hown).trans hall, fun b => ?_⟩
    rw [hmem b, hmemOwn b, List.exists_mem_cons_iff, or_assoc, Explains]

theorem known_of_modulesBitsFrom {modules : List (String × String)} {bits all : List Nat}
    (h : modulesBitsFrom bits modules = .ok all) :
    ∀ m ∈ modules, ∀ letter ∈ m.2.toList, Known letter := by
  induction modules generalizing bits with
  | nil => exact nofun
  | cons m rest ih =>
    cases hown : moduleBitsFrom m.1 bits m.2.toList with
    | error fault =>
      rw [modulesBitsFrom_cons_of_error hown] at h
      cases h
    | ok own =>
      rw [modulesBitsFrom_cons_of_ok hown] at h
      exact List.forall_mem_cons.mpr ⟨known_of_moduleBitsFrom hown, ih h⟩

/-- The bits of modules can be told if every letter is known, and are those that the modules
account for. -/
theorem exists_modulesBits {modules : Keyed String}
    (h : ∀ m ∈ modules.entries, ∀ letter ∈ m.2.toList, Known letter) :
    ∃ bits, modulesBits modules = .ok bits ∧
      ∀ b, b ∈ bits ↔ ∃ m ∈ modules.entries, Explains m b := by
  obtain ⟨bits, hbits, hmem⟩ := exists_modulesBitsFrom modules.entries [] h
  exact ⟨bits, hbits, fun b => by simpa using hmem b⟩

theorem known_of_modulesBits {modules : Keyed String} {bits : List Nat}
    (h : modulesBits modules = .ok bits) :
    ∀ m ∈ modules.entries, ∀ letter ∈ m.2.toList, Known letter := known_of_modulesBitsFrom h

end Conformance.Kernel
