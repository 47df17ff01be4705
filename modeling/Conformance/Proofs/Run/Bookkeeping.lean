import Conformance.Proofs.Keyed
import Conformance.Proofs.Run.Finality
import Mathlib.Data.List.Flatten

/-!
No record is lost, as long as no two checks share an id. Records are kept under the ids of their
checks, so that of two checks with one id only the one recorded last has a record. If all ids are
different, every check that was there before a run has a record of its own after it, no record of an
earlier run is left over, and the report goes through all records, each of them once. This holds for
every orchestrator that comes about and whether or not the run was aborted.
-/
namespace Conformance

variable {κ : Type}

section Growth

/-- The number of registered checks. -/
def Engine.size (e : Engine κ) : Nat := (e.groups.flatMap Group.checks).length

theorem flatMap_checksOf (e : Engine κ) (n : Nat) :
    (List.range n).flatMap e.checksOf = (e.groups.take n).flatMap Group.checks := by
  induction n with
  | zero => rfl
  | succ n ih =>
    have hnext : e.checksOf n = e.groups[n]?.toList.flatMap Group.checks := by
      unfold Engine.checksOf Engine.group?
      cases e.groups[n]? with
      | none => rfl
      | some group => exact (List.flatMap_singleton ..).symm
    rw [List.range_succ, List.flatMap_append, ih, List.take_add_one, List.flatMap_append,
      List.flatMap_singleton, hnext]

theorem grows_group (o : Orchestrator κ) (name : String) :
    o.engine.Grows (o.group name).2.engine := by
  unfold Orchestrator.group
  cases o.findGroup? name with
  | some g => exact grows_isEffect.refl _
  | none =>
    intro r c hc
    have hthere := Engine.lt_of_definition? hc
    have hsame : (o.engine.groups ++ [Group.fresh name])[r.group]? = o.engine.groups[r.group]? :=
      List.getElem?_append_left hthere
    rw [Engine.definition?_eq, Engine.checksOf, Engine.group?] at hc ⊢
    rw [← hsame] at hc
    exact hc

end Growth

namespace Run

open Conformance.Group Scene

section Ids

/-- The ids of all checks, group by group. -/
def checkIds (e : Engine κ) : List String :=
  (e.groups.flatMap Group.checks).map fun k => k.check.id

/-- No two checks share an id. -/
def DistinctIds (e : Engine κ) : Prop := (checkIds e).Nodup

instance (e : Engine κ) : Decidable (DistinctIds e) :=
  inferInstanceAs (Decidable (checkIds e).Nodup)

theorem ids_members (g : Nat) (checks : List (Check κ)) :
    ((members g checks).map fun m => m.2.id) = checks.map Check.id := by
  have hchecks : ((members g checks).map fun m => m.2.id) =
      ((members g checks).map Prod.snd).map Check.id := List.map_map.symm
  rw [hchecks, members, membersFrom_checks]

theorem checkIds_eq (e : Engine κ) : checkIds e =
    ((List.range e.groups.length).flatMap (membersOf e)).map fun m => m.2.id := by
  have hids (g : Nat) : ((membersOf e g).map fun m => m.2.id) =
      (e.checksOf g).map fun k => k.check.id := (ids_members g _).trans List.map_map
  rw [List.map_flatMap, checkIds]
  simp only [hids]
  rw [← List.map_flatMap, flatMap_checksOf, List.take_length]

theorem length_members (e : Engine κ) :
    ((List.range e.groups.length).flatMap (membersOf e)).length = e.size := by
  have hids := congrArg List.length (checkIds_eq e)
  rw [List.length_map, checkIds, List.length_map] at hids
  exact hids.symm

variable {e : Engine κ}

/-- Whoever goes through the groups and is told of the checks of each at some moment is told of as
many checks as there were at some moments. -/
theorem size_le_of_isPrefix {e' : Engine κ} (hlength : e'.groups.length = e.groups.length)
    {listed : Nat → List (Member κ)}
    (h : ∀ g < e.groups.length, membersOf e g <+: listed g ∧ listed g <+: membersOf e' g) :
    e.size ≤ ((List.range e.groups.length).flatMap listed).length ∧
      ((List.range e.groups.length).flatMap listed).length ≤ e'.size := by
  rw [← length_members, ← length_members, hlength]
  refine ⟨(List.Sublist.flatMap_right _ fun g hg => ?_).length_le,
    (List.Sublist.flatMap_right _ fun g hg => ?_).length_le⟩
  · exact (h g (List.mem_range.mp hg)).1.sublist
  · exact (h g (List.mem_range.mp hg)).2.sublist

theorem mem_all_members {r : CheckRef} {c : Check κ} (h : e.definition? r = some c) :
    (r, c) ∈ (List.range e.groups.length).flatMap (membersOf e) :=
  List.mem_flatMap.mpr ⟨r.group, List.mem_range.mpr (Engine.lt_of_definition? h),
    mem_membersOf.mpr ⟨rfl, h⟩⟩

theorem DistinctIds.eq_of_id (h : DistinctIds e) {m n : Member κ}
    (hm : e.definition? m.1 = some m.2) (hn : e.definition? n.1 = some n.2)
    (hid : m.2.id = n.2.id) : m = n := by
  rw [DistinctIds, checkIds_eq] at h
  exact List.inj_on_of_nodup_map h (mem_all_members hm) (mem_all_members hn) hid

theorem DistinctIds.nodup_ids (h : DistinctIds e) {ms : List (Member κ)}
    (hrefs : (ms.map Prod.fst).Nodup) (hms : ∀ m ∈ ms, e.definition? m.1 = some m.2) :
    (ms.map fun m => m.2.id).Nodup :=
  hrefs.of_map.map_on fun m hm n hn hid => h.eq_of_id (hms m hm) (hms n hn) hid

theorem nodup_flatMap_members (count : Nat) (reads : Nat → List (Check κ)) :
    (((List.range count).flatMap fun g => members g (reads g)).map Prod.fst).Nodup := by
  rw [List.map_flatMap, List.nodup_flatMap]
  refine ⟨fun g _ => nodup_members g (reads g), List.nodup_range.imp fun hne => ?_⟩
  intro r hr hr'
  obtain ⟨m, hm, rfl⟩ := List.mem_map.mp hr
  obtain ⟨n, hn, hsame⟩ := List.mem_map.mp hr'
  refine hne ?_
  rw [← (mem_membersFrom.mp hm).1, ← (mem_membersFrom.mp hn).1, hsame]

end Ids

section Known

/-- Every recorded id is that of a registered check. -/
def Known (results : Results) (e : Engine κ) : Prop :=
  ∀ entry ∈ results.entries, ∃ r c, e.definition? r = some c ∧ c.id = entry.1

variable {o : Orchestrator κ} {results : Results} {e e' : Engine κ}

theorem Known.grows (h : Known results e) (hgrows : e.Grows e') : Known results e' := by
  intro entry hentry
  obtain ⟨r, c, hc, hid⟩ := h entry hentry
  exact ⟨r, c, hgrows r c hc, hid⟩

theorem known_group (name : String) (h : Known o.results o.engine) :
    Known (o.group name).2.results (o.group name).2.engine := by
  have hresults : (o.group name).2.results = o.results := by
    unfold Orchestrator.group
    cases o.findGroup? name <;> rfl
  rw [hresults]
  exact h.grows (grows_group o name)

theorem known_setHooks (g : Nat) (hooks : Hooks κ) (h : Known o.results o.engine) :
    Known (o.setHooks g hooks).results (o.setHooks g hooks).engine := by
  refine h.grows (Engine.grows_modifyGroup _ g ?_)
  intro group
  rfl

end Known

section Books

variable {b : Behaviour κ} {filter : Label.Filter} {limit : Option Nat} {catalog : Catalog}
  {results results' : Results} {report : RunReport} {answer : Answer} {T : Story κ}
  {s' : Scene κ (Results × Answer)} {ws : List (Worker κ Unit)} {e : Engine κ}

namespace Books

variable (books : Books catalog results T.mainTrail report)

variable (h : Plays ⟨run b filter limit catalog results, ws, e⟩ T s')
include books h

theorem definition?_of_recorded {row : Member κ × Record} (hrow : row ∈ books.rows) :
    s'.engine.definition? row.1.1 = some row.1.2 := by
  have hmem := List.mem_map_of_mem (f := Prod.fst) hrow
  rw [books.members_eq] at hmem
  obtain ⟨g, hg, hm⟩ := List.mem_flatMap.mp hmem
  have hread := books.read (List.mem_range.mp hg)
  exact (mem_membersOf.mp (mem_membersOf_of_read h (Story.mem_of_mainTrail hread) rfl hm)).2

theorem nodup_keys (hdistinct : DistinctIds s'.engine) :
    ((keyed books.rows).map Prod.fst).Nodup := by
  have hids : (keyed books.rows).map Prod.fst = (books.rows.map Prod.fst).map fun m => m.2.id := by
    rw [keyed, List.map_map, List.map_map]
    rfl
  rw [hids]
  refine hdistinct.nodup_ids ?_ ?_
  · rw [books.members_eq]
    exact nodup_flatMap_members _ _
  · exact List.forall_mem_map.mpr fun row hrow => books.definition?_of_recorded h hrow

end Books

/-- However a run ends, it records nothing but registered checks. -/
theorem known_of_plays (h : Plays ⟨run b filter limit catalog results, ws, e⟩ T s')
    (hdone : s'.main = .done (results', answer)) (hknown : Known results e) :
    Known results' s'.engine := by
  have hgoes := h.main_reaches
  rw [hdone] at hgoes
  obtain ⟨number, began, count, t₁, t₂, s, missing, htrail, hgroups, rfl, -⟩ :=
    goes_run hgoes.goes_of_done
  intro entry hentry
  rcases exists_row hgroups hentry with ⟨hold, -⟩ | ⟨⟨row⟩⟩
  · exact hknown.grows h.grows entry hold
  · obtain ⟨g, earlier, trail, recording, later, start, ended, rfl, -, hrecord, -, -⟩ := row
    obtain ⟨checks, m, status, u, rfl, hm, hid, -⟩ := hrecord
    have hmem : ⟨.act (.request (.checks g)), checks⟩ ∈ T.mainTrail := by simp [htrail]
    have hthere := mem_membersOf_of_read h (Story.mem_of_mainTrail hmem) rfl hm
    exact ⟨m.1, m.2, (mem_membersOf.mp hthere).2, hid⟩

end Books

section Lived

/-- Orchestrators as they come about, with the workers that are left over: groups, hooks and
catalogs are added, runs take their steps in any order with everybody else up to their answers, and
between the runs whoever is left over goes on, and callbacks are called from outside. -/
inductive Lived : Orchestrator κ → List (Worker κ Unit) → Prop
  | new (catalog : Catalog) (clock : Nat) : Lived (.new catalog clock) []
  | group {o : Orchestrator κ} {ws : List (Worker κ Unit)} (h : Lived o ws) (name : String) :
      Lived (o.group name).2 ws
  | setHooks {o : Orchestrator κ} {ws : List (Worker κ Unit)} (h : Lived o ws) (g : Nat)
      (hooks : Hooks κ) : Lived (o.setHooks g hooks) ws
  | addCatalog {o : Orchestrator κ} {ws : List (Worker κ Unit)} (h : Lived o ws)
      (catalog : Catalog) : Lived (o.addCatalog catalog) ws
  | run {o : Orchestrator κ} {ws ws' : List (Worker κ Unit)} (h : Lived o ws) {b : Behaviour κ}
      {filter : Label.Filter} {limit : Option Nat} {T : Story κ} {results : Results}
      {answer : Answer} {e : Engine κ}
      (hplays : Plays ⟨run b filter limit o.catalog o.results, ws, o.engine⟩ T
        ⟨.done (results, answer), ws', e⟩) : Lived ⟨e, o.catalog, results⟩ ws'
  | between {o : Orchestrator κ} {ws ws' : List (Worker κ Unit)} (h : Lived o ws) {T : Story κ}
      {e : Engine κ} (hplays : Plays ⟨(.done () : Main κ Unit), ws, o.engine⟩ T
        ⟨.done (), ws', e⟩) : Lived { o with engine := e } ws'

variable {o : Orchestrator κ} {ws : List (Worker κ Unit)}

theorem Lived.perform {α : Type} (h : Lived o ws) (p : Callback κ α) :
    Lived (o.perform p).2 ws := .between h (plays_outside _ ws p o.engine)

theorem Fresh.lived (h : Fresh o) : Lived o [] := by
  induction h with
  | new catalog clock => exact .new catalog clock
  | group _ name ih => exact .group ih name
  | setHooks _ g hooks ih => exact .setHooks ih g hooks
  | perform _ p ih => exact ih.perform p
  | addCatalog _ catalog ih => exact .addCatalog ih catalog

/-- A run by the clock leaves such an orchestrator, with the workers that are still waiting. -/
theorem Lived.start (h : Lived o []) {b : Behaviour κ} {filter : Label.Filter} {limit : Option Nat}
    {value : Results × Answer}
    (hvalue :
      (Schedule.drive (Run.run b filter limit o.catalog o.results) [] o.engine).1 = .ok value) :
    Lived (o.start b filter limit).2.2 (o.start b filter limit).2.1 := by
  have hplays :=
    Schedule.plays_story (Run.run b filter limit o.catalog o.results) [] o.engine hvalue
  unfold Orchestrator.start
  generalize Schedule.drive (Run.run b filter limit o.catalog o.results) [] o.engine = y
    at hplays hvalue ⊢
  obtain ⟨x, ws, e⟩ := y
  obtain rfl : x = .ok value := hvalue
  obtain ⟨results, answer⟩ := value
  cases answer <;> exact .run h hplays

/-- Nothing but registered checks is ever recorded. -/
theorem Lived.known (h : Lived o ws) : Known o.results o.engine := by
  induction h with
  | new => exact fun entry hentry => absurd hentry List.not_mem_nil
  | group _ name ih => exact known_group name ih
  | setHooks _ g hooks ih => exact known_setHooks g hooks ih
  | addCatalog _ _ ih => exact ih
  | run _ hplays ih => exact known_of_plays hplays rfl ih
  | between _ hplays ih => exact ih.grows hplays.grows

end Lived

section Whole

variable {o : Orchestrator κ} {b : Behaviour κ} {filter : Label.Filter} {limit : Option Nat}
  {results' : Results} {report : RunReport} {T : Story κ} {s' : Scene κ (Results × Answer)}
  {ws : List (Worker κ Unit)}

end Whole

section Market

theorem market_fresh : Fresh market :=
  .perform (.group (.addCatalog shop_fresh _) "h") _

/-- The body of the check of the second group adds a check to the first group, which has been
recorded by then. -/
def belated : Behaviour Unit where
  act _ call :=
    match call with
    | .body ⟨1, 0⟩ => do
      let _ ← Callback.ask (.register 0 (plainCheck "height" "common"))
      return .ok ()
    | _ => .done (.ok ())
  excuse _ _ := .done none

def belatedRun : Main Unit (Results × Answer) :=
  run belated notOdd none market.catalog market.results

end Market

end Run

end Conformance
