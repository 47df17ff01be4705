import Conformance.Proofs.Run.Turns

/-!
Which record is made of which check, told from the trail of the thread that runs all groups. A
record is made of the answers to four questions about its check, one right after the other. The
records of a run are inserted into the results in the order in which the checks were registered,
group by group, whether or not the groups were run.
-/
namespace Conformance.Run

open Conformance.Group

variable {κ : Type}

/-- The check is recorded: its state is asked for, the recording is written to its log, and then
the rest of its result and its log are asked for. -/
def recordTrail (m : Member κ) (entry : Catalog.Entry) (before status : Status)
    (log : List LogEntry) : MainTrail κ :=
  [⟨.act (.request (.status m.1)), before⟩,
    ⟨.act (.request (.write m.1 .info
      (Recording.announcement before.state entry.identifier.id))), ()⟩,
    ⟨.act (.request (.status m.1)), status⟩, ⟨.act (.request (.log m.1)), log⟩]

/-- The record was made of this very check on the trail, with the catalog entry of its id: it tells
of the state in which the check was seen first, and of the result and the log that it had then. -/
def IsRecord (catalog : Catalog) (t : MainTrail κ) (m : Member κ) (record : Record) : Prop :=
  ∃ entry before status log, catalog.lookup m.2.id = .ok entry ∧
    recordTrail m entry before status log <:+: t ∧
    Recording.Tells record entry m.2.id before.state status log

/-- The record was made of this very check, which had been read of before, and no check of its group
is judged after that. -/
def IsLastRecord (catalog : Catalog) (t : MainTrail κ) (m : Member κ) (record : Record) : Prop :=
  ∃ checks entry before status log earlier later,
    ⟨.act (.request (.checks m.1.group)), checks⟩ ∈ earlier ∧ m ∈ members m.1.group checks ∧
    catalog.lookup m.2.id = .ok entry ∧
    t = earlier ++ (recordTrail m entry before status log ++ later) ∧
    Recording.Tells record entry m.2.id before.state status log ∧ SparesGroup m.1.group later

/-- Checks with the records that were made of them, under the ids of the checks. -/
def keyed (rows : List (Member κ × Record)) : List (String × Record) :=
  rows.map fun row => (row.1.2.id, row.2)

variable {catalog : Catalog} {results results' : Results} {missing : Option Catalog.MissingEntry}
  {t u : MainTrail κ} {rows : List (Member κ × Record)}

theorem IsRecord.mono {m : Member κ} {record : Record} (h : IsRecord catalog t m record)
    (htu : t <:+: u) : IsRecord catalog u m record := by
  obtain ⟨entry, before, status, log, hentry, hinfix, htells⟩ := h
  exact ⟨entry, before, status, log, hentry, hinfix.trans htu, htells⟩

theorem IsRecord.isLast {m : Member κ} {record : Record} {checks : List (Check κ)}
    (h : IsRecord catalog t m record) (ht : SparesGroup m.1.group t)
    (hm : m ∈ members m.1.group checks) :
    IsLastRecord catalog (⟨.act (.request (.checks m.1.group)), checks⟩ :: t) m record := by
  obtain ⟨entry, before, status, log, hentry, ⟨earlier, later, rfl⟩, htells⟩ := h
  refine ⟨checks, entry, before, status, log, _ :: earlier, later, List.mem_cons_self, hm, hentry,
    congrArg (_ :: ·) (List.append_assoc ..), htells, fun r hr => ?_⟩
  have hnone := ht r hr
  rw [verdictsOn_append, List.append_eq_nil_iff] at hnone
  exact hnone.2

namespace IsLastRecord

variable {m : Member κ} {record : Record}

theorem isRecord (h : IsLastRecord catalog t m record) : IsRecord catalog t m record := by
  obtain ⟨_, entry, before, status, log, earlier, later, -, -, hentry, rfl, htells, -⟩ := h
  refine ⟨entry, before, status, log, hentry, ⟨earlier, later, ?_⟩, htells⟩
  rw [List.append_assoc]

theorem prepend (h : IsLastRecord catalog t m record) (u : MainTrail κ) :
    IsLastRecord catalog (u ++ t) m record := by
  obtain ⟨checks, entry, before, status, log, earlier, later, hread, hm, hentry, rfl, htells,
    hlater⟩ := h
  exact ⟨checks, entry, before, status, log, u ++ earlier, later, List.mem_append_right _ hread, hm,
    hentry, (List.append_assoc ..).symm, htells, hlater⟩

theorem append (h : IsLastRecord catalog t m record) (hu : SparesGroup m.1.group u) :
    IsLastRecord catalog (t ++ u) m record := by
  obtain ⟨checks, entry, before, status, log, earlier, later, hread, hm, hentry, rfl, htells,
    hlater⟩ := h
  refine ⟨checks, entry, before, status, log, earlier, later ++ u, hread, hm, hentry, ?_, htells,
    hlater.append hu⟩
  simp only [List.append_assoc]

end IsLastRecord

section Group

theorem goes_recordCheck {m : Member κ} {record : Record}
    (h : (ofCallback (Recording.recordCheck catalog m)).Goes t (.ok (.ok record))) :
    IsRecord catalog t m record := by
  unfold Recording.recordCheck at h
  cases hlookup : catalog.lookup m.2.id with
  | error missing =>
    rw [hlookup] at h
    cases (Prog.goes_done h).2
  | ok entry =>
    rw [hlookup] at h
    obtain ⟨before, t, rfl, hseen⟩ := Prog.goes_request_bind h
    obtain ⟨_, t, rfl, hwritten⟩ := Prog.goes_request_bind hseen
    obtain ⟨status, t, rfl, hstatus⟩ := Prog.goes_request_bind hwritten
    obtain ⟨log, t, rfl, hdone⟩ := Prog.goes_request_bind hstatus
    obtain ⟨rfl, hvalue⟩ := Prog.goes_done hdone
    cases hvalue
    refine ⟨entry, before, status, log, hlookup, ?_, Recording.tells_record ..⟩
    exact Recording.recordMessage_eq before.state entry.identifier.id ▸ List.infix_refl _

theorem ofCallback_bind {α β : Type} (q : Callback κ α) (f : α → Callback κ β) :
    ofCallback (q.bind f) = (ofCallback q).bind fun value => ofCallback (f value) := by
  induction q with
  | done value => rfl
  | panic r => rfl
  | ask op next ih => exact congrArg (Prog.ask _) (funext fun answer => ih answer)

/-- The checks are recorded one after the other, up to the first one without an entry. -/
theorem goes_recordAll {ms : List (Member κ)}
    (h : (ofCallback (Recording.recordAll catalog results ms)).Goes t
      (.ok (results', missing))) :
    ∃ rows : List (Member κ × Record), results' = results.insertAll (keyed rows) ∧
      (∀ row ∈ rows, IsRecord catalog t row.1 row.2) ∧ rows.map Prod.fst <+: ms ∧
      (missing = none → rows.map Prod.fst = ms) := by
  induction ms generalizing results t with
  | nil =>
    cases (Prog.goes_done h).2
    exact ⟨[], rfl, List.forall_mem_nil _, List.prefix_refl _, fun _ => rfl⟩
  | cons m rest ih =>
    rw [Recording.recordAll, Prog.bind_eq, ofCallback_bind] at h
    obtain ⟨t₁, t₂, recorded, rfl, hfirst, hrest⟩ := Prog.goes_bind_ok h
    cases recorded with
    | error first =>
      cases (Prog.goes_done hrest).2
      refine ⟨[], rfl, List.forall_mem_nil _, List.nil_prefix, fun hnone => ?_⟩
      cases hnone
    | ok record =>
      obtain ⟨rows, rfl, hrows, hprefix, hall⟩ := ih hrest
      refine ⟨(m, record) :: rows, rfl, List.forall_mem_cons.mpr ⟨?_, fun row hrow => ?_⟩, ?_, ?_⟩
      · exact (goes_recordCheck hfirst).mono (List.prefix_append t₁ t₂).isInfix
      · exact (hrows row hrow).mono (List.suffix_append t₁ t₂).isInfix
      · exact List.cons_prefix_cons.mpr ⟨rfl, hprefix⟩
      · exact fun hnone => congrArg (m :: ·) (hall hnone)

theorem goes_recordGroup {g : Nat}
    (h : (ofCallback (Recording.recordGroup catalog results g)).Goes t
      (.ok (results', missing))) :
    ∃ checks u rows, t = ⟨.act (.request (.checks g)), checks⟩ :: u ∧
      results' = results.insertAll (keyed rows) ∧
      (∀ row ∈ rows, IsRecord catalog u row.1 row.2) ∧ rows.map Prod.fst <+: members g checks ∧
      (missing = none → rows.map Prod.fst = members g checks) := by
  obtain ⟨checks, t, rfl, hrest⟩ := Prog.goes_request_bind h
  obtain ⟨rows, hresults, hrows, hmembers⟩ := goes_recordAll hrest
  exact ⟨checks, t, rows, rfl, hresults, hrows, hmembers⟩

end Group

section Groups

variable {p : Plan κ} {s s' : Progress}

theorem keyed_append (rows later : List (Member κ × Record)) :
    keyed (rows ++ later) = keyed rows ++ keyed later := List.map_append

theorem Visit.results_eq {g : Nat} (h : Visit p g s t s') : s'.results = s.results := by
  cases h <;> rfl

/-- A run in which every check had an entry has recorded all the checks that it was told of, group
by group. A group comes once, and its checks are not judged any more when they have been
recorded. -/
theorem exists_rows {gs : List Nat} (hgs : gs.Nodup)
    (h : (runGroups p s gs).Goes t (.ok (s', none))) :
    ∃ (reads : Nat → List (Check κ)) (rows : Nat → List (Member κ × Record)),
      (∀ g ∈ gs, ⟨.act (.request (.checks g)), reads g⟩ ∈ t ∧
        (rows g).map Prod.fst = members g (reads g) ∧
        ∀ row ∈ rows g, IsLastRecord p.catalog t row.1 row.2) ∧
      s'.results = s.results.insertAll (keyed (gs.flatMap rows)) := by
  induction gs generalizing s t with
  | nil =>
    cases (Prog.goes_done h).2
    exact ⟨fun _ => [], fun _ => [], List.forall_mem_nil _, rfl⟩
  | cons g gs ih =>
    obtain ⟨hg, hrest⟩ := List.nodup_cons.mp hgs
    obtain ⟨t₁, t₂, t₃, s₁, results, first, rfl, hvisit, htells, hend⟩ := goes_runGroups_cons h
    rcases hend with ⟨hmissing, hnone, -⟩ | ⟨rfl, hlater⟩
    · exact absurd hnone.symm hmissing
    · obtain ⟨checks, u, own, rfl, rfl, hrows, -, hall⟩ := goes_recordGroup htells
      obtain ⟨-, -, hquiet⟩ := quiet_recordGroup htells
      obtain ⟨reads, rows, hothers, hresults⟩ := ih hrest hlater
      have hother : ∀ i ∈ gs, i ≠ g := fun i hi => ne_of_mem_of_not_mem hi hg
      refine ⟨Function.update reads g checks, Function.update rows g own,
        List.forall_mem_cons.mpr ⟨?_, fun i hi => ?_⟩, ?_⟩
      · rw [Function.update_self, Function.update_self]
        refine ⟨by simp, hall rfl, fun row hrow => ?_⟩
        have hmem := List.mem_map_of_mem (f := Prod.fst) hrow
        rw [hall rfl] at hmem
        obtain rfl : row.1.1.group = g := (mem_membersFrom.mp hmem).1
        -- The reading comes first and judges nobody, so that what comes after it does not either.
        have hspares : SparesGroup row.1.1.group u := hquiet _
        exact (((hrows row hrow).isLast hspares hmem).append
          (sparesGroup_runGroups hlater hg)).prepend t₁
      · rw [Function.update_of_ne (hother i hi), Function.update_of_ne (hother i hi)]
        obtain ⟨hread, hmembers, hrows⟩ := hothers i hi
        refine ⟨(infix_last t₁ _ t₃).subset hread, hmembers, fun row hrow => ?_⟩
        exact ((hrows row hrow).prepend _).prepend t₁
      · rw [hresults, hvisit.results_eq, List.flatMap_cons, Function.update_self, keyed_append,
          Keyed.insertAll_append]
        congr 2
        exact List.flatMap_congr fun i hi => (Function.update_of_ne (hother i hi) own rows).symm

end Groups

end Conformance.Run
