import Conformance.Run.Action

/-!
What no operation of a worker changes, and what each adds to the history: the hooks of a group
stay as they were set, a check stays what it was registered as, and only entering a callback adds a
call.
-/
namespace Conformance

variable {κ : Type}

def Happening.call? : Happening → Option Call
  | called call => some call
  | note _ => none

namespace Engine

/-- A check as it was registered. -/
def definition? (e : Engine κ) (r : CheckRef) : Option (Check κ) :=
  (e.check? r).map Registered.check

/-- No check is taken away or exchanged for another. -/
def Grows (e e' : Engine κ) : Prop :=
  ∀ r c, e.definition? r = some c → e'.definition? r = some c

def hooksOf (e : Engine κ) (g : Nat) : Hooks κ :=
  match e.group? g with
  | some group => group.hooks
  | none => .none

/-- The callbacks called so far, in order. -/
def calls (e : Engine κ) : List Call := e.history.filterMap Happening.call?

theorem group?_modifyGroup (e : Engine κ) (g : Nat) (f : Group κ → Group κ) (g' : Nat) :
    (e.modifyGroup g f).group? g' = if g = g' then (e.group? g').map f else e.group? g' := by
  rw [group?, modifyGroup, List.getElem?_modify]
  by_cases hg : g = g'
  · simp only [hg, if_true]
    rfl
  · simp only [hg, if_false]
    exact Option.map_id'

theorem check?_modifyGroup (e : Engine κ) (g : Nat) {f : Group κ → Group κ}
    (hf : ∀ group, (f group).checks = group.checks) (r : CheckRef) :
    (e.modifyGroup g f).check? r = e.check? r := by
  simp only [check?, group?_modifyGroup]
  by_cases hg : g = r.group
  · simp only [if_pos hg]
    cases e.group? r.group with
    | none => rfl
    | some group => simp [hf group]
  · simp only [if_neg hg]

theorem check?_modifyCheck (e : Engine κ) (r : CheckRef) (f : Registered κ → Registered κ)
    (r' : CheckRef) :
    (e.modifyCheck r f).check? r' = if r = r' then (e.check? r').map f else e.check? r' := by
  obtain ⟨g, i⟩ := r
  obtain ⟨g', i'⟩ := r'
  simp only [check?, modifyCheck, group?_modifyGroup, CheckRef.mk.injEq]
  by_cases hg : g = g'
  · simp only [hg, if_true, true_and]
    cases e.group? g' with
    | none => simp
    | some group =>
      by_cases hi : i = i'
      · simp [hi]
      · simp [hi]
  · simp only [hg, if_false, false_and]

/-- What a change leaves as it is in every check. -/
theorem map_check?_modifyCheck {β : Type} {view : Registered κ → β} (e : Engine κ) (r : CheckRef)
    {f : Registered κ → Registered κ} (hf : ∀ c, view (f c) = view c) (r' : CheckRef) :
    ((e.modifyCheck r f).check? r').map view = (e.check? r').map view := by
  rw [check?_modifyCheck]
  by_cases hr : r = r'
  · rw [if_pos hr, Option.map_map]
    exact Option.map_congr fun c _ => hf c
  · rw [if_neg hr]

/-- Registering adds a check at the end of its group. -/
theorem check?_register (e : Engine κ) (g : Nat) (check : Check κ) (r : CheckRef) :
    (e.register g check).check? r = e.check? r ∨
      (e.check? r = none ∧ (e.register g check).check? r = some (.fresh check)) := by
  have hcheck (e : Engine κ) : e.check? r =
      (e.group? r.group).bind fun group => group.checks[r.index]? := rfl
  unfold register
  cases hgroup : e.group? g with
  | none => exact .inl rfl
  | some group =>
    have hchecks : (e.modifyGroup g fun group =>
        { group with checks := group.checks ++ [.fresh check] }).check? r = e.check? r ∨
        (e.check? r = none ∧ (e.modifyGroup g fun group =>
          { group with checks := group.checks ++ [.fresh check] }).check? r =
            some (.fresh check)) := by
      rw [hcheck, hcheck, group?_modifyGroup]
      by_cases hg : g = r.group
      · rw [if_pos hg, ← hg, hgroup, Option.map_some, Option.bind_some, Option.bind_some]
        rcases Nat.lt_trichotomy r.index group.checks.length with hlt | heq | hgt
        · rw [List.getElem?_append_left hlt]
          exact .inl rfl
        · refine .inr ⟨List.getElem?_eq_none (by omega), ?_⟩
          rw [heq, List.getElem?_concat_length]
        · refine .inl ?_
          have hlong : (group.checks ++ [Registered.fresh check]).length ≤ r.index := by
            rw [List.length_append, List.length_singleton]
            omega
          rw [List.getElem?_eq_none hlong, List.getElem?_eq_none (by omega)]
      · rw [if_neg hg]
        exact .inl rfl
    exact hchecks

theorem hooksOf_modifyGroup (e : Engine κ) (g : Nat) {f : Group κ → Group κ}
    (hf : ∀ group, (f group).hooks = group.hooks) (g' : Nat) :
    (e.modifyGroup g f).hooksOf g' = e.hooksOf g' := by
  rw [hooksOf, hooksOf, group?_modifyGroup]
  by_cases hg : g = g'
  · rw [if_pos hg]
    cases e.group? g' with
    | none => rfl
    | some group => exact hf group
  · rw [if_neg hg]

theorem checksOf_modifyGroup (e : Engine κ) (g : Nat) {f : Group κ → Group κ}
    (hf : ∀ group, (f group).checks = group.checks) (g' : Nat) :
    (e.modifyGroup g f).checksOf g' = e.checksOf g' := by
  rw [checksOf, checksOf, group?_modifyGroup]
  by_cases hg : g = g'
  · rw [if_pos hg]
    cases e.group? g' with
    | none => rfl
    | some group => exact hf group
  · rw [if_neg hg]

theorem definition?_eq (e : Engine κ) (r : CheckRef) :
    e.definition? r = (e.checksOf r.group)[r.index]?.map Registered.check := by
  have hcheck : e.check? r =
      (e.group? r.group).bind fun group => group.checks[r.index]? := rfl
  rw [definition?, hcheck, checksOf]
  cases e.group? r.group <;> rfl

theorem lt_of_definition? {e : Engine κ} {r : CheckRef} {c : Check κ}
    (h : e.definition? r = some c) : r.group < e.groups.length := by
  refine Nat.lt_of_not_le fun hout => ?_
  have hnone : e.group? r.group = none := List.getElem?_eq_none hout
  rw [definition?_eq, checksOf, hnone] at h
  cases h

theorem Grows.length_le {e e' : Engine κ} (h : e.Grows e') (g : Nat) :
    (e.checksOf g).length ≤ (e'.checksOf g).length := by
  refine Nat.le_of_not_lt ?_
  intro hthere
  have hgrown := h ⟨g, (e'.checksOf g).length⟩ _
    (by rw [definition?_eq, List.getElem?_eq_getElem hthere]; rfl)
  rw [definition?_eq, List.getElem?_eq_none (Nat.le_refl _)] at hgrown
  cases hgrown

theorem grows_modifyGroup (e : Engine κ) (g : Nat) {f : Group κ → Group κ}
    (hf : ∀ group, (f group).checks = group.checks) : Grows e (e.modifyGroup g f) := by
  intro r c h
  rwa [definition?, check?_modifyGroup e g hf]

theorem grows_modifyCheck (e : Engine κ) (r : CheckRef) {f : Registered κ → Registered κ}
    (hf : ∀ c, (f c).check = c.check) : Grows e (e.modifyCheck r f) := by
  intro r' c h
  rwa [definition?, e.map_check?_modifyCheck r hf]

theorem grows_log (e : Engine κ) (r : CheckRef) (level : LogLevel) (message : String) :
    Grows e (e.log r level message) := by
  refine grows_modifyCheck e r ?_
  intro c
  rfl

theorem grows_send (e : Engine κ) (run : Nat) (signal : Signal) : Grows e (e.send run signal) := by
  intro r c h
  unfold send
  split <;> exact h

theorem grows_judge (e : Engine κ) (r : CheckRef) (verdict : Verdict) :
    Grows e (e.judge r verdict) := by
  have hjudged :
      Grows e (e.modifyCheck r fun c => { c with status := c.status.apply verdict }) := by
    refine grows_modifyCheck e r ?_
    intro c
    rfl
  intro r' c h
  unfold judge
  cases e.check? r with
  | none => exact h
  | some registered =>
    simp only
    split
    · exact hjudged r' c h
    · exact grows_log _ r _ _ r' c (hjudged r' c h)

theorem grows_register (e : Engine κ) (g : Nat) (check : Check κ) :
    Grows e (e.register g check) := by
  intro r c h
  rcases e.check?_register g check r with hsame | ⟨hnone, -⟩
  · rwa [definition?, hsame]
  · rw [definition?, hnone] at h
    cases h

theorem hooksOf_modifyCheck (e : Engine κ) (r : CheckRef) (f : Registered κ → Registered κ)
    (g : Nat) : (e.modifyCheck r f).hooksOf g = e.hooksOf g := by
  refine hooksOf_modifyGroup e r.group ?_ g
  intro group
  rfl

theorem hooksOf_log (e : Engine κ) (r : CheckRef) (level : LogLevel) (message : String) (g : Nat) :
    (e.log r level message).hooksOf g = e.hooksOf g := hooksOf_modifyCheck e r _ g

theorem hooksOf_judge (e : Engine κ) (r : CheckRef) (verdict : Verdict) (g : Nat) :
    (e.judge r verdict).hooksOf g = e.hooksOf g := by
  unfold judge
  cases e.check? r with
  | none => rfl
  | some c =>
    simp only
    split
    · exact hooksOf_modifyCheck e r _ g
    · exact (hooksOf_log _ r _ _ g).trans (hooksOf_modifyCheck e r _ g)

theorem hooksOf_send (e : Engine κ) (run : Nat) (signal : Signal) (g : Nat) :
    (e.send run signal).hooksOf g = e.hooksOf g := by
  unfold send
  split <;> rfl

theorem hooksOf_register (e : Engine κ) (g : Nat) (check : Check κ) (g' : Nat) :
    (e.register g check).hooksOf g' = e.hooksOf g' := by
  unfold register
  cases e.group? g with
  | none => rfl
  | some group =>
    refine hooksOf_modifyGroup e g ?_ g'
    intro group
    rfl

/-- A verdict changes checks and takes time for a warning, and nothing else. -/
theorem exists_judge_eq (e : Engine κ) (r : CheckRef) (verdict : Verdict) :
    ∃ groups clock, e.judge r verdict = { e with groups := groups, clock := clock } := by
  unfold judge
  cases e.check? r with
  | none => exact ⟨_, _, rfl⟩
  | some c =>
    simp only
    split
    · exact ⟨_, _, rfl⟩
    · exact ⟨_, _, rfl⟩

theorem calls_judge (e : Engine κ) (r : CheckRef) (verdict : Verdict) :
    (e.judge r verdict).calls = e.calls := by
  obtain ⟨groups, clock, hjudge⟩ := e.exists_judge_eq r verdict
  rw [hjudge]
  rfl

theorem calls_send (e : Engine κ) (run : Nat) (signal : Signal) :
    (e.send run signal).calls = e.calls := by
  unfold send
  split <;> rfl

theorem calls_register (e : Engine κ) (g : Nat) (check : Check κ) :
    (e.register g check).calls = e.calls := by
  unfold register
  cases e.group? g <;> rfl

end Engine

namespace Request

theorem hooksOf_apply (op : Request κ) (e : Engine κ) (g : Nat) :
    (op.apply e).2.hooksOf g = e.hooksOf g := by
  cases op with
  | write r level message => exact e.hooksOf_log r level message g
  | judge r verdict => exact e.hooksOf_judge r verdict g
  | abort r reason =>
    simp only [apply]
    split
    · rfl
    · split
      · exact e.hooksOf_send _ _ g
      · exact e.hooksOf_log r _ _ g
  | stop group =>
    simp only [apply]
    split <;> rfl
  | register group check => exact e.hooksOf_register group check g
  | interrupt => exact e.hooksOf_send _ _ g
  | _ => rfl

theorem grows_apply (op : Request κ) (e : Engine κ) : Engine.Grows e (op.apply e).2 := by
  cases op with
  | write r level message => exact e.grows_log r level message
  | judge r verdict => exact e.grows_judge r verdict
  | abort r reason =>
    simp only [apply]
    split
    · exact fun _ _ h => h
    · split
      · exact e.grows_send _ _
      · exact e.grows_log r _ _
  | stop group =>
    simp only [apply]
    split <;> exact fun _ _ h => h
  | register group check => exact e.grows_register group check
  | interrupt => exact e.grows_send _ _
  | _ => exact fun _ _ h => h

theorem calls_apply (op : Request κ) (e : Engine κ) : (op.apply e).2.calls = e.calls := by
  cases op with
  | note text =>
    rw [apply, Engine.calls, Engine.happen, List.filterMap_append]
    exact List.append_nil _
  | judge r verdict => exact e.calls_judge r verdict
  | abort r reason =>
    simp only [apply]
    split
    · rfl
    · split
      · exact e.calls_send _ _
      · rfl
  | stop group =>
    simp only [apply]
    split <;> rfl
  | register group check => exact e.calls_register group check
  | interrupt => exact e.calls_send _ _
  | _ => rfl

end Request

namespace Action

theorem hooksOf_apply (op : Action κ) (e : Engine κ) (g : Nat) :
    (op.apply e).2.hooksOf g = e.hooksOf g := by
  cases op with
  | request op => exact op.hooksOf_apply e g
  | setCursor group cursor =>
    refine e.hooksOf_modifyGroup group ?_ g
    intro group
    rfl
  | grant r handle => exact e.hooksOf_modifyCheck r _ g
  | begin r => exact e.hooksOf_modifyCheck r _ g
  | finish r => exact e.hooksOf_modifyCheck r _ g
  | send run signal => exact e.hooksOf_send run signal g
  | newToken group =>
    refine e.hooksOf_modifyGroup group ?_ g
    intro group
    rfl
  | _ => rfl

theorem grows_apply (op : Action κ) (e : Engine κ) : Engine.Grows e (op.apply e).2 := by
  cases op with
  | request op => exact op.grows_apply e
  | setCursor group cursor =>
    refine e.grows_modifyGroup group ?_
    intro group
    rfl
  | newToken group =>
    refine e.grows_modifyGroup group ?_
    intro group
    rfl
  | grant r handle =>
    refine e.grows_modifyCheck r ?_
    intro c
    rfl
  | begin r =>
    refine e.grows_modifyCheck r ?_
    intro c
    rfl
  | finish r =>
    refine e.grows_modifyCheck r ?_
    intro c
    rfl
  | send run signal => exact e.grows_send run signal
  | _ => exact fun _ _ h => h

def call? : Action κ → Option Call
  | enter call => some call
  | _ => none

theorem calls_apply (op : Action κ) (e : Engine κ) :
    (op.apply e).2.calls = e.calls ++ op.call?.toList := by
  cases op with
  | request op => exact (op.calls_apply e).trans (List.append_nil _).symm
  | enter call =>
    rw [apply, Engine.calls, Engine.happen, List.filterMap_append]
    rfl
  | send run signal => exact (e.calls_send run signal).trans (List.append_nil _).symm
  | _ => exact (List.append_nil _).symm

end Action

end Conformance
