import Conformance.Proofs.Group.Selection
import Conformance.Proofs.Program.Reach
import Conformance.Proofs.Report.GroupRecords

/-!
What the recording of a group asks for. It changes the result of no check, never panics, and breaks
off only at a check of the group that has no catalog entry.
-/
namespace Conformance.Recording

variable {κ : Type} {catalog : Catalog} {results results' : Results} {e e' : Engine κ}

section Asking

/-- What a recording asks for. -/
def Asks (g : Nat) : Request κ → Prop
  | .checks g' => g' = g
  | .status r | .log r | .write r _ _ => r.group = g
  | _ => False

theorem asks_recordCheck (catalog : Catalog) {g : Nat} {m : Group.Member κ} (hm : m.1.group = g) :
    (recordCheck catalog m).Only (Asks g) := by
  unfold recordCheck
  cases catalog.lookup m.2.id with
  | error missing => trivial
  | ok entry => exact ⟨hm, fun _ => ⟨hm, fun _ => ⟨hm, fun _ => ⟨hm, fun _ => trivial⟩⟩⟩⟩

theorem asks_recordGroup (catalog : Catalog) (results : Results) (g : Nat) :
    (recordGroup (κ := κ) catalog results g).Only (Asks g) := by
  have hall (ms : List (Group.Member κ)) : ∀ results, (∀ m ∈ ms, m.1.group = g) →
      (recordAll catalog results ms).Only (Asks g) := by
    induction ms with
    | nil => exact fun _ _ => trivial
    | cons m rest ih =>
      intro results hms
      obtain ⟨hm, hrest⟩ := List.forall_mem_cons.mp hms
      refine (asks_recordCheck catalog hm).bind ?_
      intro recorded
      cases recorded with
      | error missing => trivial
      | ok record => exact ih _ hrest
  refine Prog.Only.bind (Prog.only_request rfl) fun checks => ?_
  exact hall _ _ fun m hm => (Group.mem_membersFrom.mp hm).1

theorem neverPanics_recordGroup (catalog : Catalog) (results : Results) (g : Nat) :
    (recordGroup (κ := κ) catalog results g).NeverPanics := by
  have hcheck (m : Group.Member κ) : (recordCheck catalog m).NeverPanics := by
    unfold recordCheck
    cases catalog.lookup m.2.id with
    | error missing => trivial
    | ok entry => exact fun _ _ _ _ => trivial
  have hall (ms : List (Group.Member κ)) : ∀ results,
      (recordAll catalog results ms).NeverPanics := by
    induction ms with
    | nil => exact fun _ => trivial
    | cons m rest ih =>
      intro results
      refine (hcheck m).bind ?_
      intro recorded
      cases recorded with
      | error missing => trivial
      | ok record => exact ih _
  exact (Prog.neverPanics_request _).bind fun checks => hall _ _

theorem Asks.result?_apply {g : Nat} {op : Request κ} (h : Asks g op) (e : Engine κ)
    (r : CheckRef) : (op.apply e).2.result? r = e.result? r := by
  cases op with
  | checks => rfl
  | status => rfl
  | log => rfl
  | write r' level message => exact e.result?_log r' level message r
  | _ => exact absurd h id

/-- Recording changes the result of no check. -/
theorem result?_recordGroup (catalog : Catalog) (results : Results) (g : Nat) (e : Engine κ)
    (r : CheckRef) :
    ((recordGroup catalog results g).exec Request.apply e).2.result? r = e.result? r := by
  symm
  refine Prog.Only.effect (K := fun e e' : Engine κ => e.result? r = e'.result? r)
    ⟨fun _ => rfl, Eq.trans⟩ ?_ (asks_recordGroup catalog results g) e
  exact fun op e h => (h.result?_apply e r).symm

end Asking

/-- A recording breaks off at a check without an entry. -/
theorem exists_of_missing {g : Nat} {first : Catalog.MissingEntry}
    (h : (recordGroup catalog results g).exec Request.apply e = (.ok (results', some first), e')) :
    ∃ m ∈ Group.membersOf e g, catalog.lookup m.2.id = .error first := by
  obtain ⟨rows, -, hexec⟩ := exec_recordGroup catalog results g e
  rw [h] at hexec
  obtain ⟨c, hfound, rfl⟩ := Option.map_eq_some_iff.mp
    (congrArg Prod.snd (Except.ok.inj (congrArg Prod.fst hexec))).symm
  obtain ⟨i, hi⟩ := List.mem_iff_getElem?.mp (List.mem_of_find?_eq_some hfound)
  refine ⟨(⟨g, i⟩, c.check), Group.mem_membersOf.mpr ⟨rfl, ?_⟩, ?_⟩
  · rw [Engine.definition?, Engine.check?_eq, hi, Option.map_some]
  · exact lookup_of_not_documented (by simpa using List.find?_some hfound)

end Conformance.Recording
