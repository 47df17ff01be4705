import Conformance.Proofs.Keyed
import Conformance.Proofs.Run.GroupChecks
import Conformance.Report.Recording
import Mathlib.Data.List.Induction
import Mathlib.Data.List.TakeWhile

/-!
What recording a group comes to, told of its checks as they were before. They are recorded in the
order in which they were registered, up to the first one without a catalog entry. A check that is
recorded gets a line about it into its log, and the record is made of the check as it is then. The
checks from the first one without an entry on are not touched.
-/
namespace Conformance.Recording

variable {κ : Type} {catalog : Catalog}

section Rows

/-- The log of the check with this id as text: a line per entry, in the order of the entries, with
the level in five columns, the time, the id and the message. -/
inductive ShowsLog (id : String) : List LogEntry → String → Prop
  | nil : ShowsLog id [] ""
  | snoc {log : List LogEntry} {text : String} (h : ShowsLog id log text) (entry : LogEntry) :
      ShowsLog id (log ++ [entry]) (text ++
        ((match entry.level with
          | .debug => "DEBUG"
          | .info => "INFO "
          | .warn => "WARN "
          | .error => "ERROR") ++
          " [" ++ entry.time.logStamp ++ "] [" ++ id ++ "] " ++ entry.message ++ "\n"))

theorem showsLog_logText (id : String) (log : List LogEntry) :
    ShowsLog id log (logText id log) := by
  induction log using List.reverseRecOn with
  | nil => exact .nil
  | append_singleton log entry ih =>
    have htext : logText id (log ++ [entry]) = logText id log ++ entry.line id := by
      rw [logText, List.map_append, String.join_append]
      exact congrArg (logText id log ++ ·) String.empty_append
    rw [htext]
    obtain ⟨level, time, message⟩ := entry
    cases level <;> exact ih.snoc _

/-- The record tells of a check that was seen in this state, with this result and log, and of what
the catalog documents about it. -/
structure Tells (record : Record) (entry : Catalog.Entry) (id : String) (state : CheckState)
    (status : Status) (log : List LogEntry) : Prop where
  state : record.state = state
  reason : record.reason = status.reason
  details : record.details = status.details
  startedAt : record.startedAt = status.startedAt
  endedAt : record.endedAt = status.endedAt
  /-- In whole seconds, rounded towards zero. -/
  lasted : ∀ start finish, status.startedAt = some start → status.endedAt = some finish →
    record.duration = .ofInt (((finish.seconds - start.seconds) * 1000000000 +
      finish.nanos - start.nanos).tdiv 1000000000)
  unended : status.startedAt = none ∨ status.endedAt = none → record.duration = 0
  output : ShowsLog id log record.output
  testId : record.testId = entry.identifier
  categories : record.categories = entry.categories
  info : record.info =
    ⟨entry.description, entry.remediation, entry.reference, entry.exceptionProcess⟩

theorem tells_record (entry : Catalog.Entry) (state : CheckState) (id : String) (status : Status)
    (log : List LogEntry) : Tells (record entry state id status log) entry id state status log where
  state := rfl
  reason := rfl
  details := rfl
  startedAt := rfl
  endedAt := rfl
  lasted start finish hstart hfinish := by
    rw [record, hstart, hfinish]
    rfl
  unended := by
    rintro (hstart | hfinish)
    · rw [record, hstart]
      rfl
    · rw [record, hfinish]
      cases status.startedAt <;> rfl
  output := showsLog_logText id log
  testId := rfl
  categories := rfl
  info := rfl

/-- What is logged of the recording of a check in this state, whose entry has this id. -/
def announcement (state : CheckState) (id : String) : String :=
  "Recording result " ++
    (match state with
    | .passed => "\"PASSED\""
    | .failed => "\"FAILED\""
    | .skipped => "\"SKIPPED\""
    | .error => "\"ERROR\""
    | .aborted => "\"ABORTED\"") ++ ", claimID: " ++ id

theorem recordMessage_eq (state : CheckState) (id : String) :
    recordMessage state id = announcement state id := by
  cases state <;> rfl

/-- A check with the line about its recording in its log. -/
def noted (entry : Catalog.Entry) (time : Time.Instant) (c : Registered κ) : Registered κ :=
  { c with log := c.log ++ [⟨.info, time, announcement c.status.state entry.identifier.id⟩] }

/-- What a check has become when it was recorded, and the record that was made of it, which has the
line about the recording in its output already. -/
def Recorded (catalog : Catalog) (c : Registered κ) (row : Registered κ × Record) : Prop :=
  ∃ entry time, catalog.lookup c.check.id = .ok entry ∧ row.1 = noted entry time c ∧
    Tells row.2 entry c.check.id c.status.state c.status row.1.log

/-- Records under the ids of their checks. -/
def keyed (rows : List (Registered κ × Record)) : List (String × Record) :=
  rows.map fun row => (row.1.check.id, row.2)

/-- Whether a check has a catalog entry. -/
def documented (catalog : Catalog) (c : Registered κ) : Bool := catalog.contains c.check.id

theorem documented_iff {c : Registered κ} :
    documented catalog c = true ↔ ∃ entry, catalog.lookup c.check.id = .ok entry := by
  rw [documented, Catalog.contains, Catalog.lookup]
  cases catalog.entries.get? c.check.id <;> simp

theorem lookup_of_not_documented {c : Registered κ} (h : documented catalog c = false) :
    catalog.lookup c.check.id = .error ⟨c.check.id⟩ := by
  rw [documented, Catalog.contains, Option.isSome_eq_false_iff, Option.isNone_iff_eq_none] at h
  rw [Catalog.lookup, h]

end Rows

section Checks

variable {e : Engine κ} {r : CheckRef} {c : Registered κ} {entry : Catalog.Entry}

theorem status_apply (h : e.check? r = some c) : ((Request.status r).apply e).1 = c.status := by
  simp only [Request.apply, h]

theorem log_apply (h : e.check? r = some c) : ((Request.log r).apply e).1 = c.log := by
  simp only [Request.apply, h]

/-- A check with an entry is recorded as it is with the line about that in its log. -/
theorem exec_recordCheck (hc : e.check? r = some c)
    (hentry : catalog.lookup c.check.id = .ok entry) :
    ∃ record, Tells record entry c.check.id c.status.state c.status (noted entry e.now c).log ∧
      (recordCheck catalog (r, c.check)).exec Request.apply e = (.ok (.ok record),
        e.log r .info (announcement c.status.state entry.identifier.id)) := by
  have hnoted : (e.log r .info (announcement c.status.state entry.identifier.id)).check? r =
      some (noted entry e.now c) := by
    have hmodified := e.check?_modifyCheck r (fun d =>
      { d with log := d.log ++
        [⟨.info, e.now, announcement c.status.state entry.identifier.id⟩] }) r
    rw [if_pos rfl, hc, Option.map_some] at hmodified
    exact hmodified
  refine ⟨_, tells_record .., ?_⟩
  have hexec : (recordCheck catalog (r, c.check)).exec Request.apply e =
      (let state := ((Request.status r).apply e).1.state
       let e₁ := e.log r .info (recordMessage state entry.identifier.id)
       (.ok (.ok (record entry state c.check.id ((Request.status r).apply e₁).1
         ((Request.log r).apply e₁).1)), e₁)) := by
    unfold recordCheck
    simp only [hentry]
    rfl
  rw [hexec]
  simp only [recordMessage_eq, status_apply hc, status_apply hnoted, log_apply hnoted]
  rfl

/-- The engine with other checks in a group, and some looks at its clock later. -/
def relogged (e : Engine κ) (g : Nat) (checks : List (Registered κ)) (looks : Nat) : Engine κ :=
  { e.withChecks g checks with clock := e.clock + looks * Engine.moment }

theorem relogged_self (e : Engine κ) (g : Nat) : relogged e g (e.checksOf g) 0 = e := by
  rw [relogged, e.withChecks_self, Nat.zero_mul]
  rfl

theorem relogged_relogged (e : Engine κ) (g : Nat) (checks later : List (Registered κ))
    (m n : Nat) : relogged (relogged e g checks m) g later n = relogged e g later (m + n) := by
  have hgroups := congrArg Engine.groups (e.withChecks_withChecks g checks later)
  have hclock : e.clock + m * Engine.moment + n * Engine.moment =
      e.clock + (m + n) * Engine.moment := by
    rw [Nat.add_mul, Nat.add_assoc]
  unfold relogged
  rw [← hclock]
  exact congrArg (fun groups : List (Group κ) =>
    ({ e with groups := groups, clock := e.clock + m * Engine.moment + n * Engine.moment } :
      Engine κ)) hgroups

theorem modify_append_cons (before after : List (Registered κ)) (f : Registered κ → Registered κ)
    (c : Registered κ) :
    (before ++ c :: after).modify before.length f = before ++ f c :: after := by
  induction before with
  | nil => rfl
  | cons d before ih => simp [ih]

variable {g : Nat} {before todo : List (Registered κ)} {results : Results}

theorem log_eq (h : e.checksOf g = before ++ c :: todo) :
    e.log ⟨g, before.length⟩ .info (announcement c.status.state entry.identifier.id) =
      relogged e g (before ++ noted entry e.now c :: todo) 1 := by
  rw [Engine.log, Engine.modifyCheck_eq_withChecks, h, modify_append_cons, relogged, Nat.one_mul]
  rfl

end Checks

section Groups

variable {g : Nat} {e : Engine κ} {done todo : List (Registered κ)}

/-- The checks of a group from a place on are recorded one after the other, up to the first one
without an entry. -/
theorem exec_recordAll (catalog : Catalog) (results : Results)
    (h : e.checksOf g = done ++ todo) :
    ∃ rows, List.Forall₂ (Recorded catalog) (todo.takeWhile (documented catalog)) rows ∧
      (recordAll catalog results
          (Group.membersFrom g done.length (todo.map Registered.check))).exec Request.apply e =
        (.ok (results.insertAll (keyed rows),
            (todo.find? (!documented catalog ·)).map fun c => ⟨c.check.id⟩),
          relogged e g (done ++ (rows.map Prod.fst ++ todo.dropWhile (documented catalog)))
            rows.length) := by
  induction todo generalizing results done e with
  | nil =>
    refine ⟨[], .nil, ?_⟩
    have hself : relogged e g (done ++ []) 0 = e := by rw [← h, relogged_self]
    exact Prod.ext rfl hself.symm
  | cons c rest ih =>
    cases hdocumented : documented catalog c with
    | false =>
      have hundocumented : ¬documented catalog c = true := by simp [hdocumented]
      have hmissing : (recordCheck catalog (⟨g, done.length⟩, c.check)).exec Request.apply e =
          (.ok (.error ⟨c.check.id⟩), e) := by
        unfold recordCheck
        simp only [lookup_of_not_documented hdocumented]
        rfl
      have hself : relogged e g (done ++ c :: rest) 0 = e := by rw [← h, relogged_self]
      refine ⟨[], ?_, ?_⟩
      · rw [List.takeWhile_cons_of_neg hundocumented]
        exact .nil
      · rw [List.map_cons, Group.membersFrom, recordAll, Prog.bind_eq,
          Prog.exec_bind_of_ok hmissing, List.dropWhile_cons_of_neg hundocumented,
          List.find?_cons_of_pos (by simp [hdocumented])]
        exact Prod.ext rfl hself.symm
    | true =>
      obtain ⟨entry, hlookup⟩ := documented_iff.mp hdocumented
      have hc : e.check? ⟨g, done.length⟩ = some c := by
        rw [Engine.check?_eq, h, List.getElem?_append_right (Nat.le_refl _), Nat.sub_self]
        rfl
      obtain ⟨record, htells, hrecorded⟩ := exec_recordCheck hc hlookup
      rw [log_eq h] at hrecorded
      have hlater : (relogged e g (done ++ noted entry e.now c :: rest) 1).checksOf g =
          (done ++ [noted entry e.now c]) ++ rest := by
        rw [← List.append_cons]
        exact Engine.checksOf_withChecks (by simp [h])
      obtain ⟨rows, hrows, hexec⟩ := ih (results.insert c.check.id record) hlater
      refine ⟨(noted entry e.now c, record) :: rows, ?_, ?_⟩
      · rw [List.takeWhile_cons_of_pos hdocumented]
        exact .cons ⟨entry, e.now, hlookup, rfl, htells⟩ hrows
      · rw [relogged_relogged, List.length_append, List.append_assoc, Nat.add_comm 1] at hexec
        rw [List.map_cons, Group.membersFrom, recordAll, Prog.bind_eq,
          Prog.exec_bind_of_ok hrecorded, List.find?_cons_of_neg (by simp [hdocumented]),
          List.dropWhile_cons_of_pos hdocumented]
        exact hexec

theorem exec_recordGroup (catalog : Catalog) (results : Results) (g : Nat) (e : Engine κ) :
    ∃ rows, List.Forall₂ (Recorded catalog)
        ((e.checksOf g).takeWhile (documented catalog)) rows ∧
      (recordGroup catalog results g).exec Request.apply e =
        (.ok (results.insertAll (keyed rows),
            ((e.checksOf g).find? (!documented catalog ·)).map fun c => ⟨c.check.id⟩),
          relogged e g (rows.map Prod.fst ++ (e.checksOf g).dropWhile (documented catalog))
            rows.length) :=
  exec_recordAll catalog results (List.nil_append (e.checksOf g)).symm

theorem missing_eq_none_iff {checks : List (Registered κ)} :
    (checks.find? (!documented catalog ·)).map
        (fun c => (⟨c.check.id⟩ : Catalog.MissingEntry)) = none ↔
      ∀ c ∈ checks, documented catalog c = true := by
  simp

/-- Recording a group fails exactly when one of its checks has no catalog entry, and names the first
one. Every check before it, or every check if there is none, gets a line about its recording into
its log and nothing else, and a record of what it is then, which takes the place of all earlier
results under its id. The other checks stay as they are, and so does the rest of the engine, but for
the clock. -/
theorem group_is_recorded_in_order (catalog : Catalog) (results : Results) (g : Nat)
    (e : Engine κ) :
    let checks := e.checksOf g
    ∃ rows missing,
      (recordGroup catalog results g).exec Request.apply e =
        (.ok (results.insertAll (keyed rows), missing),
          relogged e g (rows.map Prod.fst ++ checks.dropWhile (documented catalog))
            rows.length) ∧
      List.Forall₂ (Recorded catalog) (checks.takeWhile (documented catalog)) rows ∧
      (missing = none ↔ ∀ c ∈ checks, ∃ entry, catalog.lookup c.check.id = .ok entry) ∧
      (missing = none → List.Forall₂ (Recorded catalog) checks rows ∧
        checks.dropWhile (documented catalog) = []) ∧
      missing = (checks.find? (!documented catalog ·)).map (fun c => ⟨c.check.id⟩) ∧
      ∀ id, (results.insertAll (keyed rows)).get? id =
        ((rows.reverse.find? (·.1.check.id == id)).map Prod.snd).or (results.get? id) := by
  intro checks
  obtain ⟨rows, hrows, hexec⟩ := exec_recordGroup catalog results g e
  refine ⟨rows, _, hexec, hrows, ?_, ?_, rfl, ?_⟩
  · exact missing_eq_none_iff.trans (forall₂_congr fun c _ => documented_iff)
  · intro hmissing
    have hall := missing_eq_none_iff.mp hmissing
    rw [List.takeWhile_eq_self_iff.mpr hall] at hrows
    exact ⟨hrows, List.dropWhile_eq_nil_iff.mpr hall⟩
  · exact results.get?_insertAll_map _ _ rows

/-- Of three checks the second is not documented, and both others have the same id. -/
example :
    let catalog := Catalog.ofDrafts [⟨"a", "s", "", "", "", "", false, .none, []⟩]
    let e : Engine Unit := { (Engine.start 0 : Engine Unit) with
      groups := [{ Group.fresh "g" with
        checks := [.fresh (.new "s-a" []), .fresh (.new "s-b" []), .fresh (.new "s-a" [])] }] }
    let after := (recordGroup catalog .empty 0).exec Request.apply e
    (after.1.map fun (results, missing) => (results.keys, missing)) =
        .ok (["s-a"], some ⟨"s-b"⟩) ∧
      (after.2.checksOf 0).map (·.log.length) = [1, 0, 0] := by
  decide

end Groups

end Conformance.Recording
