import Conformance.Proofs.Kernel.Bits
import Conformance.Proofs.Text.Runs
import Mathlib.Data.Nat.Bitwise

/-!
What the bits of a mask and the letters of modules are decoded to. A message ends in the number of
its bit, so the messages of a mask give the mask back, and a letter is decoded to the lowest bit
that carries it because the table of taints is in the order of the bits.
-/
namespace Conformance.Kernel

/-! ### Masks -/

theorem mem_setBits_iff_and {mask : UInt64} {bit : Nat} :
    bit ∈ setBits mask ↔ bit < 64 ∧ mask &&& 1 <<< UInt64.ofNat bit ≠ 0 := by
  rw [setBits, List.mem_filter, List.mem_range]
  refine and_congr_right fun hbit => ?_
  have hshift : (1 <<< UInt64.ofNat bit : UInt64).toNat = 2 ^ bit := by
    rw [UInt64.toNat_shiftLeft, UInt64.toNat_ofNat', UInt64.toNat_one, Nat.shiftLeft_eq, one_mul,
      Nat.mod_mod_of_dvd bit (by decide), Nat.mod_eq_of_lt hbit,
      Nat.mod_eq_of_lt (Nat.pow_lt_pow_right Nat.one_lt_two hbit)]
  rw [Ne, ← UInt64.toNat_inj, UInt64.toNat_and, hshift, Nat.and_two_pow, UInt64.toNat_zero]
  cases mask.toNat.testBit bit <;> simp

theorem setBits_inj {mask mask' : UInt64} (h : setBits mask = setBits mask') : mask = mask' := by
  refine UInt64.toNat_inj.mp (Nat.eq_of_testBit_eq fun bit => Bool.eq_iff_iff.mpr ?_)
  rw [← mem_setBits, ← mem_setBits, h]

/-- A message ends in its bit, whose digits are read back from the end. -/
theorem bitMessage_inj {bit bit' : Nat} (h : bitMessage bit = bitMessage bit') : bit = bit' := by
  have hends (n : Nat) : ∃ front, (bitMessage n).toList.reverse =
      ')' :: ((Nat.toDigits 10 n).reverse ++ ' ' :: front) := by
    simp [bitMessage]
  have hdigits (n : Nat) : ∀ c ∈ (Nat.toDigits 10 n).reverse, c.isDigit = true := fun c hc =>
    Nat.isDigit_of_mem_toDigits (by decide) (by decide) (List.mem_reverse.mp hc)
  have hspace (front : List Char) : ∀ c ∈ (' ' :: front).head?, c.isDigit = false := by
    rintro c hc
    cases hc
    rfl
  obtain ⟨front, hfront⟩ := hends bit
  obtain ⟨front', hfront'⟩ := hends bit'
  rw [h, hfront'] at hfront
  have hsame := (Text.append_inj_of_runs (hdigits _) (hdigits _) (hspace _) (hspace _)
    (List.cons.inj hfront).2).1
  rw [List.reverse_inj] at hsame
  rw [← Nat.ofDigitChars_ten_toDigits (n := bit), ← hsame, Nat.ofDigitChars_ten_toDigits]

theorem maskMessages_inj {mask mask' : UInt64} (h : maskMessages mask = maskMessages mask') :
    mask = mask' :=
  setBits_inj (List.map_injective_iff.mpr (fun _ _ => bitMessage_inj) h)

/-- The other bits and those among the given ones are the bits of the mask, each once. -/
theorem perm_otherBits (mask : UInt64) (bits : List Nat) :
    (otherBits mask bits ++ (setBits mask).filter (bits.contains ·)).Perm (setBits mask) :=
  List.perm_append_comm.trans (List.filter_append_perm (bits.contains ·) (setBits mask))

/-! ### Letters -/

/-- The lowest bit of the table that carries the letter. -/
def IsLowest (letter : Char) (bit : Nat) : Prop :=
  (∃ taint ∈ knownTaints, taint.bit = bit ∧ letter ∈ taint.letters) ∧
    ∀ taint ∈ knownTaints, letter ∈ taint.letters → bit ≤ taint.bit

theorem pairwise_knownTaints : knownTaints.Pairwise fun s t => s.bit < t.bit := by decide

theorem IsLowest.known {letter : Char} {bit : Nat} (h : IsLowest letter bit) : Known letter := by
  obtain ⟨⟨taint, htaint, -, hletter⟩, -⟩ := h
  exact ⟨taint, htaint, hletter⟩

theorem IsLowest.unique {letter : Char} {bit bit' : Nat} (h : IsLowest letter bit)
    (h' : IsLowest letter bit') : bit = bit' := by
  obtain ⟨⟨taint, htaint, rfl, hletter⟩, hlowest⟩ := h
  obtain ⟨⟨taint', htaint', rfl, hletter'⟩, hlowest'⟩ := h'
  exact Nat.le_antisymm (hlowest taint' htaint' hletter') (hlowest' taint htaint hletter)

/-- The table is searched in its order, so what is found has the lowest bit. -/
theorem isLowest_of_letterBit {letter : Char} {bit : Nat} (h : letterBit letter = .ok bit) :
    IsLowest letter bit := by
  unfold letterBit ofLetter? at h
  split at h
  · next taint hfind =>
    cases h
    obtain ⟨hletter, earlier, later, htable, hearlier⟩ := List.find?_eq_some_iff_append.mp hfind
    refine ⟨⟨taint, List.mem_of_find?_eq_some hfind, rfl, List.elem_iff.mp hletter⟩,
      fun other hother hcarries => ?_⟩
    have hordered := pairwise_knownTaints
    rw [htable] at hordered hother
    rcases List.mem_append.mp hother with hmem | hmem
    · have hskipped := hearlier other hmem
      rw [List.contains_eq_mem, decide_eq_true hcarries] at hskipped
      cases hskipped
    · rcases List.mem_cons.mp hmem with rfl | hmem
      · exact Nat.le_refl _
      · exact Nat.le_of_lt (List.rel_of_pairwise_cons (List.pairwise_append.mp hordered).2.1 hmem)
  · cases h

theorem letterBit_eq_ok_iff {letter : Char} {bit : Nat} :
    letterBit letter = .ok bit ↔ IsLowest letter bit := by
  refine ⟨isLowest_of_letterBit, fun h => ?_⟩
  obtain ⟨found, hfound⟩ := known_iff.mp h.known
  rw [hfound, h.unique (isLowest_of_letterBit hfound)]

theorem explains_iff {m : String × String} {bit : Nat} :
    Explains m bit ↔ ∃ letter ∈ m.2.toList, IsLowest letter bit := by
  simp only [Explains, letterBit_eq_ok_iff]

/-! ### Modules -/

theorem pairwise_insertBit (bit : Nat) {bits : List Nat} (h : bits.Pairwise (· < ·)) :
    (insertBit bit bits).Pairwise (· < ·) := by
  induction bits with
  | nil => exact List.pairwise_singleton _ _
  | cons first rest ih =>
    obtain ⟨hfirst, hrest⟩ := List.pairwise_cons.mp h
    unfold insertBit
    split
    · next hlt =>
      refine List.pairwise_cons.mpr ⟨fun b hb => ?_, h⟩
      rcases List.mem_cons.mp hb with rfl | hb
      · exact hlt
      · exact Nat.lt_trans hlt (hfirst b hb)
    · split
      · next hgt =>
        refine List.pairwise_cons.mpr ⟨fun b hb => ?_, ih hrest⟩
        rcases mem_insertBit.mp hb with rfl | hb
        · exact hgt
        · exact hfirst b hb
      · exact h

theorem pairwise_moduleBitsFrom {module : String} {letters : List Char} {bits all : List Nat}
    (hbits : bits.Pairwise (· < ·)) (h : moduleBitsFrom module bits letters = .ok all) :
    all.Pairwise (· < ·) := by
  induction letters generalizing bits with
  | nil => exact Except.ok.inj h ▸ hbits
  | cons letter rest ih =>
    rw [moduleBitsFrom] at h
    split at h
    · next bit hbit => exact ih (pairwise_insertBit bit hbits) h
    · cases h

theorem pairwise_modulesBitsFrom {modules : List (String × String)} {bits all : List Nat}
    (hbits : bits.Pairwise (· < ·)) (h : modulesBitsFrom bits modules = .ok all) :
    all.Pairwise (· < ·) := by
  induction modules generalizing bits with
  | nil => exact Except.ok.inj h ▸ hbits
  | cons m rest ih =>
    cases hown : moduleBitsFrom m.1 bits m.2.toList with
    | error fault =>
      rw [modulesBitsFrom_cons_of_error hown] at h
      cases h
    | ok own =>
      rw [modulesBitsFrom_cons_of_ok hown] at h
      exact ih (pairwise_moduleBitsFrom hbits hown) h

/-! ### The first unknown letter -/

/-- The letter is unknown, and none before it is. -/
def IsFirstUnknown (letters : List Char) (letter : Char) : Prop :=
  ∃ front rest, letters = front ++ letter :: rest ∧ (∀ l ∈ front, Known l) ∧ ¬ Known letter

/-- The first module in the order of names that has an unknown letter, and its first such letter. -/
def IsFirstFault (modules : Keyed String) (module : String) (letter : Char) : Prop :=
  ∃ letters, modules.get? module = some letters ∧ IsFirstUnknown letters.toList letter ∧
    ∀ name < module, ∀ others, modules.get? name = some others → ∀ l ∈ others.toList, Known l

theorem exists_isFirstUnknown_of_error {module : String} {letters : List Char} {bits : List Nat}
    {fault : LetterFault} (h : moduleBitsFrom module bits letters = .error fault) :
    ∃ letter, fault = .ofModule module letter ∧ IsFirstUnknown letters letter := by
  induction letters generalizing bits with
  | nil => cases h
  | cons letter rest ih =>
    rw [moduleBitsFrom] at h
    split at h
    · next bit hbit =>
      obtain ⟨unknown, hfault, front, rest', hsplit, hfront, hunknown⟩ := ih h
      have hletter : Known letter := known_iff.mpr ⟨bit, hbit⟩
      exact ⟨unknown, hfault, letter :: front, rest', congrArg (letter :: ·) hsplit,
        List.forall_mem_cons.mpr ⟨hletter, hfront⟩, hunknown⟩
    · next fault' hbit =>
      cases h
      refine ⟨letter, rfl, [], rest, rfl, List.forall_mem_nil _, fun hknown => ?_⟩
      obtain ⟨bit, hok⟩ := known_iff.mp hknown
      rw [hok] at hbit
      cases hbit

theorem moduleBitsFrom_of_isFirstUnknown {letters : List Char} {letter : Char}
    (h : IsFirstUnknown letters letter) (module : String) (bits : List Nat) :
    moduleBitsFrom module bits letters = .error (.ofModule module letter) := by
  obtain ⟨front, rest, rfl, hfront, hunknown⟩ := h
  induction front generalizing bits with
  | nil =>
    rw [List.nil_append, moduleBitsFrom]
    split
    · next bit hbit => exact absurd (known_iff.mpr ⟨bit, hbit⟩) hunknown
    · rfl
  | cons l front ih =>
    obtain ⟨hl, hfront⟩ := List.forall_mem_cons.mp hfront
    obtain ⟨bit, hbit⟩ := known_iff.mp hl
    rw [List.cons_append, moduleBitsFrom, hbit]
    exact ih (insertBit bit bits) hfront

theorem exists_split_of_error {modules : List (String × String)} {bits : List Nat}
    {fault : LetterFault} (h : modulesBitsFrom bits modules = .error fault) :
    ∃ earlier m later letter, modules = earlier ++ m :: later ∧
      (∀ e ∈ earlier, ∀ l ∈ e.2.toList, Known l) ∧ IsFirstUnknown m.2.toList letter ∧
      fault = .ofModule m.1 letter := by
  induction modules generalizing bits with
  | nil => cases h
  | cons m rest ih =>
    cases hown : moduleBitsFrom m.1 bits m.2.toList with
    | error fault' =>
      rw [modulesBitsFrom_cons_of_error hown] at h
      cases h
      obtain ⟨letter, hfault, hfirst⟩ := exists_isFirstUnknown_of_error hown
      exact ⟨[], m, rest, letter, rfl, List.forall_mem_nil _, hfirst, hfault⟩
    | ok own =>
      rw [modulesBitsFrom_cons_of_ok hown] at h
      obtain ⟨earlier, faulty, later, letter, hsplit, hearlier, hfirst, hfault⟩ := ih h
      exact ⟨m :: earlier, faulty, later, letter, congrArg (m :: ·) hsplit,
        List.forall_mem_cons.mpr ⟨known_of_moduleBitsFrom hown, hearlier⟩, hfirst, hfault⟩

/-- Whatever bits have been collected, the loop is left at the first unknown letter. -/
theorem modulesBitsFrom_split {earlier later : List (String × String)} {m : String × String}
    {letter : Char} (hearlier : ∀ e ∈ earlier, ∀ l ∈ e.2.toList, Known l)
    (hfirst : IsFirstUnknown m.2.toList letter) (bits : List Nat) :
    modulesBitsFrom bits (earlier ++ m :: later) = .error (.ofModule m.1 letter) := by
  induction earlier generalizing bits with
  | nil => exact modulesBitsFrom_cons_of_error (moduleBitsFrom_of_isFirstUnknown hfirst m.1 bits)
  | cons e earlier ih =>
    obtain ⟨he, hearlier⟩ := List.forall_mem_cons.mp hearlier
    obtain ⟨own, hown, -⟩ := exists_moduleBitsFrom e.1 e.2.toList bits he
    rw [List.cons_append, modulesBitsFrom_cons_of_ok hown]
    exact ih hearlier own

/-- Entries are in the order of the names, so the modules before one in the list are those of
smaller names. -/
theorem lt_iff_mem_earlier {modules : Keyed String} {earlier later : List (String × String)}
    {m e : String × String} (hsplit : modules.entries = earlier ++ m :: later)
    (he : e ∈ modules.entries) : e.1 < m.1 ↔ e ∈ earlier := by
  have hordered := modules.ordered
  rw [hsplit] at hordered he
  obtain ⟨-, htail, hcross⟩ := List.pairwise_append.mp hordered
  refine ⟨fun hlt => ?_, fun hmem => hcross e hmem m List.mem_cons_self⟩
  rcases List.mem_append.mp he with hmem | hmem
  · exact hmem
  · rcases List.mem_cons.mp hmem with rfl | hmem
    · exact absurd hlt (String.lt_irrefl _)
    · exact absurd (String.lt_trans hlt (List.rel_of_pairwise_cons htail hmem))
        (String.lt_irrefl _)

theorem modulesBits_eq_error_iff {modules : Keyed String} {fault : LetterFault} :
    modulesBits modules = .error fault ↔
      ∃ module letter, fault = .ofModule module letter ∧ IsFirstFault modules module letter := by
  constructor
  · intro h
    obtain ⟨earlier, m, later, letter, hsplit, hearlier, hfirst, hfault⟩ := exists_split_of_error h
    have hm : m ∈ modules.entries := hsplit ▸ List.mem_append_right _ List.mem_cons_self
    refine ⟨m.1, letter, hfault, m.2, Keyed.get?_eq_some.mpr hm, hfirst, ?_⟩
    intro name hlt others hothers
    have hmem := Keyed.get?_eq_some.mp hothers
    exact hearlier (name, others) ((lt_iff_mem_earlier hsplit hmem).mp hlt)
  · rintro ⟨module, letter, rfl, letters, hletters, hfirst, hsmaller⟩
    obtain ⟨earlier, later, hsplit⟩ := List.append_of_mem (Keyed.get?_eq_some.mp hletters)
    have hearlier : ∀ e ∈ earlier, ∀ l ∈ e.2.toList, Known l := by
      intro e he
      have hmem : e ∈ modules.entries := hsplit ▸ List.mem_append_left _ he
      exact hsmaller e.1 ((lt_iff_mem_earlier hsplit hmem).mpr he) e.2 (Keyed.get?_eq_some.mpr hmem)
    rw [modulesBits, hsplit]
    exact modulesBitsFrom_split hearlier hfirst []

theorem exists_error_iff {modules : Keyed String} :
    (∃ fault, modulesBits modules = .error fault) ↔
      ∃ m ∈ modules.entries, ∃ letter ∈ m.2.toList, ¬ Known letter := by
  constructor
  · rintro ⟨fault, h⟩
    obtain ⟨earlier, m, later, letter, hsplit, -, ⟨front, rest, hletters, -, hunknown⟩, -⟩ :=
      exists_split_of_error h
    exact ⟨m, hsplit ▸ List.mem_append_right _ List.mem_cons_self, letter,
      hletters ▸ List.mem_append_right _ List.mem_cons_self, hunknown⟩
  · rintro ⟨m, hm, letter, hletter, hunknown⟩
    cases h : modulesBits modules with
    | error fault => exact ⟨fault, rfl⟩
    | ok bits => exact absurd (known_of_modulesBits h m hm letter hletter) hunknown

/-! ### Bits neither lost nor invented -/

/-- A mask is decoded to one message per bit, the lowest first, from which the mask can be told. The
bits that are not among given ones make up the mask with those that are. The bits of modules are the
lowest that their letters stand for, all of them, unless a letter is unknown: then the first such
letter is reported, with its module. -/
theorem taint_bits_are_exact (mask : UInt64) (bits : List Nat) (modules : Keyed String) :
    ((setBits mask).Pairwise (· < ·) ∧
      (∀ b, b ∈ setBits mask ↔ b < 64 ∧ mask &&& 1 <<< UInt64.ofNat b ≠ 0) ∧
      maskMessages mask = (setBits mask).map bitMessage ∧
      ∀ mask', maskMessages mask = maskMessages mask' → mask = mask') ∧
    ((otherBits mask bits).Pairwise (· < ·) ∧ (∀ b ∈ otherBits mask bits, b ∉ bits) ∧
      (otherBits mask bits ++ (setBits mask).filter (bits.contains ·)).Perm (setBits mask)) ∧
    ((∃ fault, modulesBits modules = .error fault) ↔
      ∃ m ∈ modules.entries, ∃ letter ∈ m.2.toList, ¬ Known letter) ∧
    (∀ fault, modulesBits modules = .error fault ↔
      ∃ module letter, fault = .ofModule module letter ∧ IsFirstFault modules module letter) ∧
    ((∀ m ∈ modules.entries, ∀ letter ∈ m.2.toList, Known letter) →
      ∃ all, modulesBits modules = .ok all ∧ all.Pairwise (· < ·) ∧
        ∀ b, b ∈ all ↔ ∃ m ∈ modules.entries, ∃ letter ∈ m.2.toList, IsLowest letter b) := by
  refine ⟨⟨pairwise_setBits mask, fun b => mem_setBits_iff_and, rfl, fun _ => maskMessages_inj⟩,
    ⟨pairwise_otherBits mask bits, fun b hb => (mem_otherBits.mp hb).2, perm_otherBits mask bits⟩,
    exists_error_iff, fun fault => modulesBits_eq_error_iff, fun hknown => ?_⟩
  obtain ⟨all, hall, hmem⟩ := exists_modulesBits hknown
  refine ⟨all, hall, pairwise_modulesBitsFrom List.Pairwise.nil hall, fun b => ?_⟩
  simp only [hmem b, explains_iff]

/-- A mask with its highest bit, modules of which two have an unknown letter, and a module with
letters that two bits carry each. -/
theorem taint_bits_are_exact_sharedLetter :
    maskMessages 9223372036854906880 ≠ maskMessages 131072 ∧
      (63 ∈ otherBits 9223372036854906880 [17] ∧ 63 ∉ [17]) ∧
      (∃ module letter, LetterFault.ofModule "alpha" '?' = .ofModule module letter ∧
        IsFirstFault (Keyed.ofList [("beta", "!"), ("alpha", "G?!")]) module letter) ∧
      ∃ all, modulesBits (Keyed.ofList [("alpha", "Tu")]) = .ok all ∧ 17 ∈ all := by
  obtain ⟨⟨-, -, -, hmasks⟩, ⟨-, hother, -⟩, -⟩ :=
    taint_bits_are_exact 9223372036854906880 [17] Keyed.empty
  obtain ⟨-, -, -, hfault, -⟩ :=
    taint_bits_are_exact 0 [] (Keyed.ofList [("beta", "!"), ("alpha", "G?!")])
  obtain ⟨-, -, -, -, hbits⟩ := taint_bits_are_exact 0 [] (Keyed.ofList [("alpha", "Tu")])
  have hmember : 63 ∈ otherBits 9223372036854906880 [17] := by decide
  refine ⟨fun h => absurd (hmasks 131072 h) (by decide), ⟨hmember, hother 63 hmember⟩,
    (hfault _).mp (by rfl), ?_⟩
  have hknown : ∀ m ∈ (Keyed.ofList [("alpha", "Tu")]).entries, ∀ letter ∈ m.2.toList,
      Known letter := by
    intro m hm letter hletter
    obtain rfl : m = ("alpha", "Tu") := List.mem_singleton.mp hm
    rcases List.mem_cons.mp hletter with rfl | hletter
    · exact known_iff.mpr ⟨17, rfl⟩
    · exact known_iff.mpr ⟨30, List.mem_singleton.mp hletter ▸ rfl⟩
  obtain ⟨all, hall, -, hmem⟩ := hbits hknown
  exact ⟨all, hall, (hmem 17).mpr
    ⟨("alpha", "Tu"), List.mem_singleton_self _, 'T', by decide, isLowest_of_letterBit rfl⟩⟩

end Conformance.Kernel
