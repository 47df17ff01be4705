import Conformance.Kernel.TaintCheck
import Conformance.Proofs.Kernel.Bits
import Conformance.Proofs.Run.Standing
import Mathlib.Data.List.Forall2

/-!
When the check of a kernel passes, and whom its findings name. A kernel passes if it has no taints,
or if some modules are allowed to taint and account for all that is there; in every other case the
check fails, and every set bit that no allowed module accounts for is named in a finding.
-/
namespace Conformance.Kernel

open Inspection

/-- A finding about a bit of the mask for which a module is responsible. -/
structure Blames (f : Finding) (node module : String) (bit : Nat) : Prop where
  kind : f.kind = "Taint"
  node : f.field? "Node Name" = some node
  module : f.field? "Module Name" = some module
  bit : f.field? "Taint Bit" = some (toString bit)

theorem blames_taintFinding (node message module : String) (bit : Nat) :
    Blames (taintFinding node message (toString bit) module) node module bit :=
  ⟨rfl, rfl, rfl, rfl⟩

namespace Node

/-- Every taint of a mask is accounted for, and by modules that are allowed to taint. -/
structure Accounted (n : Node) (mask : UInt64) (all : Keyed String) : Prop where
  known : ∀ m ∈ all.entries, ∀ letter ∈ m.2.toList, Known letter
  allowed : ∀ m ∈ all.entries, m.1 ∈ n.allowList
  explained : ∀ bit, mask.toNat.testBit bit = true → ∃ m ∈ all.entries, Explains m bit

/-- A kernel without taints, or with such taints only as allowed modules account for. -/
def Clean (n : Node) : Prop :=
  ∃ mask, n.mask = .ok mask ∧
    (mask = 0 ∨ n.allowList ≠ [] ∧ ∃ all, n.modules = .ok all ∧ n.Accounted mask all)

/-- The letters of the modules that are not allowed to taint, each with its module, in order. -/
def offences (n : Node) (all : Keyed String) : List (String × Char) :=
  (all.entries.filter (·.1 ∉ n.allowList)).flatMap fun m => m.2.toList.map (m.1, ·)

/-- The findings against the modules of a node, one for each offence, and those about the bits that
no module accounts for. -/
structure Charges (n : Node) (mask : UInt64) (all : Keyed String) (offending unexplained :
    List Finding) (bits : List Nat) : Prop where
  offending : List.Forall₂ (fun f o => ∃ bit, letterBit o.2 = .ok bit ∧ Blames f n.name o.1 bit)
    offending (n.offences all)
  unexplained : List.Forall₂ (fun f bit => Blames f n.name "N/A" bit) unexplained bits
  ascending : bits.Pairwise (· < ·)
  mem_bits : ∀ bit, bit ∈ bits ↔
    mask.toNat.testBit bit = true ∧ ∀ m ∈ all.entries, ¬Explains m bit

end Node

/-! ### What an inspection comes to -/

/-- What a fold of steps adds to a list that each step adds to. -/
theorem foldl_appends {σ α β : Type} {view : σ → List β} {step : σ → α → σ} {added : α → List β}
    (h : ∀ s a, view (step s a) = view s ++ added a) (s : σ) (l : List α) :
    view (l.foldl step s) = view s ++ l.flatMap added := by
  induction l generalizing s with
  | nil => rw [List.foldl_nil, List.flatMap_nil, List.append_nil]
  | cons a rest ih => rw [List.foldl_cons, ih, h, List.flatMap_cons, List.append_assoc]

def letterFinding (node module : String) (letter : Char) : Finding :=
  match letterBit letter with
  | .ok bit => taintFinding node (letterMessage letter) (toString bit) module
  | .error _ =>
    (Finding.kernelTaint node (letterMessage letter) false).withField "Module Name" module

def bitFinding (node : String) (bit : Nat) : Finding :=
  taintFinding node (bitMessage bit) (toString bit) "N/A"

theorem nonCompliant_foldl_inspectModule (node : String) (i : Inspection)
    (ms : List (String × String)) : (ms.foldl (inspectModule node) i).nonCompliant =
      i.nonCompliant ++ ms.flatMap fun m => m.2.toList.map (letterFinding node m.1) := by
  refine foldl_appends (fun i m => ?_) i ms
  rw [List.map_eq_flatMap]
  exact foldl_appends (fun _ _ => rfl) i m.2.toList

theorem nonCompliant_foldl_inspectBit (node : String) (i : Inspection) (bits : List Nat) :
    (bits.foldl (inspectBit node) i).nonCompliant =
      i.nonCompliant ++ bits.map (bitFinding node) := by
  rw [List.map_eq_flatMap]
  exact foldl_appends (fun _ _ => rfl) i bits

section Inspect

variable {n : Node} {mask : UInt64}

theorem inspect_of_fault {fault : NodeFault} (h : n.mask = .error fault) :
    (inspect n).nonCompliant ≠ [] := by
  simp [inspect, h, reject, write, empty]

theorem inspect_of_zero (h : n.mask = .ok 0) :
    (inspect n).nonCompliant = [] ∧ (inspect n).compliant ≠ [] := by
  simp [inspect, h, inspectMask, comply, write, empty]

theorem inspect_of_nobody (h : n.mask = .ok mask) (hmask : mask ≠ 0) (hnobody : n.allowList = []) :
    (inspect n).nonCompliant ≠ [] := by
  simp [inspect, h, inspectMask, hmask, hnobody, reject, write, empty]

variable (h : n.mask = .ok mask) (hmask : mask ≠ 0) (hsome : n.allowList ≠ [])

include h hmask hsome

theorem inspect_of_tainters_fault {fault : NodeFault} (htainters : n.tainters = .error fault) :
    (inspect n).nonCompliant ≠ [] := by
  simp [inspect, h, inspectMask, hmask, hsome, inspectModules, htainters, reject]

/-- Either there is something against the node, or something for it. -/
theorem inspect_of_tainters {tainters : List (String × String)} {bits : List Nat}
    (htainters : n.tainters = .ok (tainters, bits)) :
    (inspect n).nonCompliant =
        (tainters.flatMap fun m => m.2.toList.map (letterFinding n.name m.1)) ++
          (otherBits mask bits).map (bitFinding n.name) ∧
      ((inspect n).nonCompliant = [] → (inspect n).compliant ≠ []) := by
  have hallowed : n.allowList.isEmpty = false := List.isEmpty_eq_false_iff.mpr hsome
  simp only [inspect, h, inspectMask, hmask, hallowed, inspectModules, htainters, if_false,
    Bool.false_eq_true]
  constructor
  · split
    · simp [comply, write, nonCompliant_foldl_inspectModule, nonCompliant_foldl_inspectBit, empty]
    · simp [write, nonCompliant_foldl_inspectModule, nonCompliant_foldl_inspectBit, empty]
  · split
    · simp [comply]
    · next hfound =>
      intro hnone
      rw [hnone] at hfound
      exact absurd rfl hfound

end Inspect

/-! ### The modules that taint -/

theorem modulesFrom_letters {n : Node} {directory : FilePath} {names : List (List UInt8)}
    {m all : Keyed String} (hm : ∀ e ∈ m.entries, e.2.toList ≠ [])
    (h : n.modulesFrom directory m names = .ok all) : ∀ e ∈ all.entries, e.2.toList ≠ [] := by
  induction names generalizing m with
  | nil =>
    cases h
    exact hm
  | cons name rest ih =>
    rw [Node.modulesFrom] at h
    split at h
    · cases hread : n.read ((directory.child name).join "taint") with
      | error fault =>
        rw [hread] at h
        cases h
      | ok text =>
        rw [hread] at h
        refine ih (fun e he => ?_) h
        split at he
        · exact hm e he
        · next hletters =>
          rcases Keyed.mem_insert he with rfl | ⟨hold, -⟩
          · simpa using hletters
          · exact hm e hold
    · exact ih hm h

/-- Only modules with letters are told of. -/
theorem letters_ne_nil {n : Node} {all : Keyed String} (h : n.modules = .ok all) :
    ∀ m ∈ all.entries, m.2.toList ≠ [] := by
  simp only [Node.modules] at h
  cases hlist : n.files.list (n.root.join "sys/module") with
  | error fault =>
    rw [hlist] at h
    cases h
  | ok names =>
    rw [hlist] at h
    exact modulesFrom_letters (fun e he => absurd he List.not_mem_nil) h

theorem get?_isNone {n : Node} {module : String} :
    (n.allowed.get? module).isNone = true ↔ module ∉ n.allowList := by
  rw [Option.isNone_iff_eq_none]
  constructor
  · intro hnone hmem
    obtain ⟨e, he, rfl⟩ := List.mem_map.mp hmem
    rw [Keyed.get?_eq_some.mpr he] at hnone
    cases hnone
  · intro hmem
    refine Option.eq_none_iff_forall_ne_some.mpr fun value hvalue => hmem ?_
    exact List.mem_map_of_mem (f := Prod.fst) (Keyed.get?_eq_some.mp hvalue)

theorem exists_tainters {n : Node} {all : Keyed String} (h : n.modules = .ok all)
    (hknown : ∀ m ∈ all.entries, ∀ letter ∈ m.2.toList, Known letter) :
    ∃ bits, n.tainters = .ok (all.entries.filter (·.1 ∉ n.allowList), bits) ∧
      ∀ b, b ∈ bits ↔ ∃ m ∈ all.entries, Explains m b := by
  obtain ⟨bits, hbits, hmem⟩ := exists_modulesBits hknown
  refine ⟨bits, ?_, hmem⟩
  have hfilter : (all.entries.filter fun m => (n.allowed.get? m.1).isNone) =
      all.entries.filter (·.1 ∉ n.allowList) := by
    refine List.filter_congr fun m _ => ?_
    rw [Bool.eq_iff_iff, get?_isNone, decide_eq_true_iff]
  rw [← hfilter, Node.tainters, h]
  change (Except.mapError NodeFault.letter (modulesBits all)).bind _ = _
  rw [hbits]
  rfl

theorem known_of_tainters {n : Node} {found : List (String × String) × List Nat}
    (h : n.tainters = .ok found) : ∃ all, n.modules = .ok all ∧
      ∀ m ∈ all.entries, ∀ letter ∈ m.2.toList, Known letter := by
  unfold Node.tainters at h
  cases hmodules : n.modules with
  | error fault =>
    rw [hmodules] at h
    cases h
  | ok all =>
    refine ⟨all, rfl, ?_⟩
    rw [hmodules] at h
    change (Except.mapError NodeFault.letter (modulesBits all)).bind _ = _ at h
    cases hbits : modulesBits all with
    | error fault =>
      rw [hbits] at h
      cases h
    | ok bits => exact known_of_modulesBits hbits

/-! ### The verdict -/

section Verdict

variable {n : Node} {mask : UInt64} {all : Keyed String}

/-- The findings name each offence and then each bit that is left over. -/
theorem charges_of_modules (h : n.mask = .ok mask) (hmask : mask ≠ 0) (hsome : n.allowList ≠ [])
    (hall : n.modules = .ok all)
    (hknown : ∀ m ∈ all.entries, ∀ letter ∈ m.2.toList, Known letter) :
    ∃ offending unexplained bits, (inspect n).nonCompliant = offending ++ unexplained ∧
      n.Charges mask all offending unexplained bits := by
  obtain ⟨bits, htainters, hbits⟩ := exists_tainters hall hknown
  obtain ⟨hfound, -⟩ := inspect_of_tainters h hmask hsome htainters
  refine ⟨_, _, otherBits mask bits, hfound, ?_, ?_, pairwise_otherBits mask bits, ?_⟩
  · have hflat : ((all.entries.filter (·.1 ∉ n.allowList)).flatMap fun m =>
        m.2.toList.map (letterFinding n.name m.1)) =
        (n.offences all).map fun o => letterFinding n.name o.1 o.2 := by
      rw [Node.offences, List.map_flatMap]
      simp only [List.map_map, Function.comp_def]
    rw [hflat, List.forall₂_map_left_iff, List.forall₂_same]
    rintro ⟨module, letter⟩ ho
    obtain ⟨m, hm, hletter⟩ := List.mem_flatMap.mp ho
    obtain ⟨l, hl, heq⟩ := List.mem_map.mp hletter
    cases heq
    obtain ⟨bit, hbit⟩ := known_iff.mp (hknown m (List.mem_of_mem_filter hm) letter hl)
    refine ⟨bit, hbit, ?_⟩
    simp only [letterFinding, hbit]
    exact blames_taintFinding ..
  · rw [List.forall₂_map_left_iff, List.forall₂_same]
    exact fun bit _ => blames_taintFinding ..
  · intro bit
    rw [mem_otherBits, hbits]
    simp only [not_exists, not_and]

theorem exists_of_forall₂ {α β : Type} {R : α → β → Prop} {as : List α} {bs : List β}
    (h : List.Forall₂ R as bs) {b : β} (hb : b ∈ bs) : ∃ a ∈ as, R a b := by
  induction h with
  | nil => cases hb
  | cons hfirst hrest ih =>
    rcases List.mem_cons.mp hb with rfl | hb
    · exact ⟨_, List.mem_cons_self, hfirst⟩
    · obtain ⟨a, ha, hab⟩ := ih hb
      exact ⟨a, List.mem_cons_of_mem _ ha, hab⟩

/-- A bit that is set is named in a finding unless a module that may taint accounts for it. -/
theorem Node.Charges.covers {offending unexplained : List Finding} {bits : List Nat}
    (h : n.Charges mask all offending unexplained bits) {bit : Nat}
    (hset : mask.toNat.testBit bit = true)
    (hbit : ∀ m ∈ all.entries, m.1 ∈ n.allowList → ¬Explains m bit) :
    ∃ f ∈ offending ++ unexplained, f.field? "Taint Bit" = some (toString bit) := by
  by_cases hexplained : ∃ m ∈ all.entries, Explains m bit
  · obtain ⟨m, hm, letter, hletter, hstands⟩ := hexplained
    have hoffender : m.1 ∉ n.allowList := fun hallowed =>
      hbit m hm hallowed ⟨letter, hletter, hstands⟩
    have hoffence : (m.1, letter) ∈ n.offences all :=
      List.mem_flatMap.mpr ⟨m, List.mem_filter.mpr ⟨hm, by simpa using hoffender⟩,
        List.mem_map_of_mem hletter⟩
    obtain ⟨f, hf, named, hnamed, hblames⟩ := exists_of_forall₂ h.offending hoffence
    obtain rfl : bit = named := Except.ok.inj (hstands.symm.trans hnamed)
    exact ⟨f, List.mem_append_left _ hf, hblames.bit⟩
  · have hleft : bit ∈ bits :=
      (h.mem_bits bit).mpr ⟨hset, fun m hm hm' => hexplained ⟨m, hm, hm'⟩⟩
    obtain ⟨f, hf, hblames⟩ := exists_of_forall₂ h.unexplained hleft
    exact ⟨f, List.mem_append_right _ hf, hblames.bit⟩

/-- Where all letters are known, nothing is found just if every taint is accounted for. -/
theorem nonCompliant_inspect_eq_nil_iff_accounted (h : n.mask = .ok mask) (hmask : mask ≠ 0)
    (hsome : n.allowList ≠ []) (hall : n.modules = .ok all)
    (hknown : ∀ m ∈ all.entries, ∀ letter ∈ m.2.toList, Known letter) :
    (inspect n).nonCompliant = [] ↔ n.Accounted mask all := by
  obtain ⟨bits, htainters, hbits⟩ := exists_tainters hall hknown
  obtain ⟨hfound, -⟩ := inspect_of_tainters h hmask hsome htainters
  rw [hfound, List.append_eq_nil_iff, List.map_eq_nil_iff]
  constructor
  · rintro ⟨hnobody, hnothing⟩
    refine ⟨hknown, fun m hm => ?_, fun bit hset => ?_⟩
    · by_contra hoffender
      have hletters := List.flatMap_eq_nil_iff.mp hnobody m
        (List.mem_filter.mpr ⟨hm, by simpa using hoffender⟩)
      exact letters_ne_nil hall m hm (List.map_eq_nil_iff.mp hletters)
    · by_contra hunexplained
      have hleft : bit ∈ otherBits mask bits :=
        mem_otherBits.mpr ⟨hset, fun hbit => hunexplained ((hbits bit).mp hbit)⟩
      rw [hnothing] at hleft
      cases hleft
  · rintro ⟨-, hallowed, hexplained⟩
    refine ⟨List.flatMap_eq_nil_iff.mpr fun m hm => ?_, ?_⟩
    · obtain ⟨hm, hoffender⟩ := List.mem_filter.mp hm
      exact absurd (hallowed m hm) (by simpa using hoffender)
    · refine List.eq_nil_iff_forall_not_mem.mpr fun bit hbit => ?_
      obtain ⟨hset, hunexplained⟩ := mem_otherBits.mp hbit
      exact hunexplained ((hbits bit).mpr (hexplained bit hset))

/-- Nothing is found against a node just if its kernel is clean. -/
theorem nonCompliant_inspect_eq_nil_iff (n : Node) : (inspect n).nonCompliant = [] ↔ n.Clean := by
  cases hmask : n.mask with
  | error fault =>
    refine ⟨fun h => absurd h (inspect_of_fault hmask), ?_⟩
    rintro ⟨mask, hok, -⟩
    rw [hmask] at hok
    cases hok
  | ok mask =>
    have hclean : n.Clean ↔ mask = 0 ∨ n.allowList ≠ [] ∧ ∃ all, n.modules = .ok all ∧
        n.Accounted mask all := by
      simp only [Node.Clean, hmask, Except.ok.injEq, exists_eq_left']
    rw [hclean]
    by_cases hzero : mask = 0
    · subst hzero
      exact iff_of_true (inspect_of_zero hmask).1 (.inl rfl)
    by_cases hsome : n.allowList = []
    · exact iff_of_false (inspect_of_nobody hmask hzero hsome)
        fun h => h.elim hzero fun h => h.1 hsome
    cases htainters : n.tainters with
    | error fault =>
      refine iff_of_false (inspect_of_tainters_fault hmask hzero hsome htainters) ?_
      rintro (hmask | ⟨-, all, hall, haccounted⟩)
      · exact hzero hmask
      · obtain ⟨bits, hbits, -⟩ := exists_tainters hall haccounted.known
        rw [hbits] at htainters
        cases htainters
    | ok found =>
      obtain ⟨all, hall, hknown⟩ := known_of_tainters htainters
      rw [nonCompliant_inspect_eq_nil_iff_accounted hmask hzero hsome hall hknown]
      simp only [hzero, hsome, false_or, not_false_eq_true, ne_eq, true_and, hall,
        Except.ok.injEq, exists_eq_left']

/-- Something is found about every node. -/
theorem compliant_inspect_ne_nil {n : Node} (h : (inspect n).nonCompliant = []) :
    (inspect n).compliant ≠ [] := by
  cases hmask : n.mask with
  | error fault => exact absurd h (inspect_of_fault hmask)
  | ok mask =>
    by_cases hzero : mask = 0
    · subst hzero
      exact (inspect_of_zero hmask).2
    by_cases hsome : n.allowList = []
    · exact absurd h (inspect_of_nobody hmask hzero hsome)
    cases htainters : n.tainters with
    | error fault => exact absurd h (inspect_of_tainters_fault hmask hzero hsome htainters)
    | ok found => exact (inspect_of_tainters hmask hzero hsome htainters).2 h

end Verdict

/-! ### The check -/

section Report

variable (r : CheckRef) (e : Engine Task)

theorem exec_writeAll (lines : List (LogLevel × String)) :
    (writeAll r lines).exec Request.apply e =
      (.ok (), lines.foldl (fun e line => e.log r line.1 line.2) e) := by
  induction lines generalizing e with
  | nil => rfl
  | cons line rest ih => exact ih (e.log r line.1 line.2)

theorem result?_foldl_log (lines : List (LogLevel × String)) (r' : CheckRef) :
    (lines.foldl (fun e line => e.log r line.1 line.2) e).result? r' = e.result? r' := by
  induction lines generalizing e with
  | nil => rfl
  | cons line rest ih => exact (ih _).trans (e.result?_log r line.1 line.2 r')

/-- A report ends well, whatever was found, and judges the check by the findings. -/
theorem exec_report (i : Inspection) :
    ∃ e', (report r i).exec Request.apply e = (.ok (.ok ()), e') ∧
    e'.result? r = (e.result? r).map (·.apply (.findings i.compliant i.nonCompliant)) := by
  let logged := i.log.foldl (fun e line => e.log r line.1 line.2) e
  refine ⟨logged.judge r (.findings i.compliant i.nonCompliant), ?_, ?_⟩
  · rw [report, Prog.bind_eq, Prog.exec_bind, exec_writeAll]
    rfl
  · rw [Engine.result?_judge, if_pos rfl, result?_foldl_log]

end Report

/-- The findings settle a check that nothing has been held against so far. -/
theorem apply_findings_of_passed {s : Status} (hpassed : s.state = .passed)
    {compliant nonCompliant : List Finding} (h : nonCompliant = [] → compliant ≠ []) :
    (s.apply (.findings compliant nonCompliant)).state =
        (if nonCompliant = [] then .passed else .failed) ∧
      (s.apply (.findings compliant nonCompliant)).details =
        renderFindings compliant nonCompliant := by
  cases nonCompliant with
  | nil =>
    have hsome : compliant.isEmpty = false := List.isEmpty_eq_false_iff.mpr (h rfl)
    simp [Status.apply, Status.takeFindings, hpassed, hsome]
  | cons f rest => simp [Status.apply, Status.takeFindings, Status.settle, hpassed]

/-- The check of a node's kernel ends well, and as passed or failed by whether the kernel is clean.
Its findings name the offences of the modules and the bits that are left over, so that no bit goes
unnamed unless an allowed module accounts for it. -/
theorem inspect_decides (n : Node) {e : Engine Task} {r : CheckRef} {s : Status}
    (hcheck : e.result? r = some s) (hfresh : s.state = .passed) :
    ∃ e' s', ((behaviour n).act .inspect (.body r)).exec Request.apply e = (.ok (.ok ()), e') ∧
      e'.result? r = some s' ∧
      (s'.state = .passed ↔ n.Clean) ∧ (s'.state = .failed ↔ ¬n.Clean) ∧
      s'.details = renderFindings (inspect n).compliant (inspect n).nonCompliant ∧
      ∀ mask all, n.mask = .ok mask → mask ≠ 0 → n.allowList ≠ [] → n.modules = .ok all →
        (∀ m ∈ all.entries, ∀ letter ∈ m.2.toList, Known letter) →
        ∃ offending unexplained bits, (inspect n).nonCompliant = offending ++ unexplained ∧
          n.Charges mask all offending unexplained bits ∧
          ∀ bit, mask.toNat.testBit bit = true →
            (∀ m ∈ all.entries, m.1 ∈ n.allowList → ¬Explains m bit) →
            ∃ f ∈ (inspect n).nonCompliant, f.field? "Taint Bit" = some (toString bit) := by
  obtain ⟨e', hexec, hresult⟩ := exec_report r e (inspect n)
  obtain ⟨hstate, hdetails⟩ := apply_findings_of_passed hfresh (compliant_inspect_ne_nil (n := n))
  rw [hcheck, Option.map_some] at hresult
  refine ⟨e', _, hexec, hresult, ?_, ?_, hdetails, ?_⟩
  · rw [hstate, ← nonCompliant_inspect_eq_nil_iff]
    simp
  · rw [hstate, ← nonCompliant_inspect_eq_nil_iff]
    simp
  · intro mask all hmask hzero hsome hall hknown
    obtain ⟨offending, unexplained, bits, hfound, hcharges⟩ :=
      charges_of_modules hmask hzero hsome hall hknown
    refine ⟨offending, unexplained, bits, hfound, hcharges, fun bit hset hbit => ?_⟩
    rw [hfound]
    exact hcharges.covers hset hbit

/-- A node with a stranger among its modules and with a kernel warning, the bits 0, 9, 12 and 13. -/
def strangeNode : Node :=
  let file (path text : String) := ((FilePath.ofText path).names, FileItem.file (Text.toUtf8 text))
  .new ⟨[file "node/proc/sys/kernel/tainted" "12801\n", file "node/sys/module/nvidia/taint" "PO\n",
    file "node/sys/module/stranger/taint" "OE\n"]⟩ "node" ["nvidia"]

def loneCheck : Engine Task :=
  ⟨[{ Group.fresh suite with checks := [.fresh check] }], [⟨0, 0⟩], ⟨0, false, []⟩, [], 0, []⟩

theorem inspect_decides_strangeNode :
    loneCheck.result? ⟨0, 0⟩ = some .start ∧ Status.start.state = .passed ∧
      (inspect strangeNode).nonCompliant.map
        (fun f => (f.field? "Module Name", f.field? "Taint Bit")) =
          [(some "stranger", some "12"), (some "stranger", some "13"), (some "N/A", some "9")] ∧
      ∃ e' s', ((behaviour strangeNode).act .inspect (.body ⟨0, 0⟩)).exec Request.apply loneCheck =
          (.ok (.ok ()), e') ∧ e'.result? ⟨0, 0⟩ = some s' ∧ s'.state = .failed := by
  have hcheck : loneCheck.result? ⟨0, 0⟩ = some .start := by decide +kernel
  have hfindings : (inspect strangeNode).nonCompliant.map
      (fun f => (f.field? "Module Name", f.field? "Taint Bit")) =
        [(some "stranger", some "12"), (some "stranger", some "13"), (some "N/A", some "9")] := by
    decide +kernel
  obtain ⟨e', s', hexec, hresult, -, hfailed, -⟩ := inspect_decides strangeNode hcheck rfl
  refine ⟨hcheck, rfl, hfindings, e', s', hexec, hresult, hfailed.mpr fun hclean => ?_⟩
  rw [(nonCompliant_inspect_eq_nil_iff strangeNode).mpr hclean] at hfindings
  cases hfindings

end Conformance.Kernel
