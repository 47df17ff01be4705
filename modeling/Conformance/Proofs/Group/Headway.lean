import Conformance.Proofs.Group.Order
import Conformance.Proofs.Group.Rounds
import Conformance.Proofs.Group.Within
import Conformance.Proofs.Run.Marks

/-!
How far a group run has come, told from a trail that may break off anywhere: the whole rounds that
it has done, and what has been begun after them. A round starts when the stop token is found unset
and ends when the cursor is moved on, so the cursor never lags behind by more than the round in
hand, and the cursor and the number of looks that let the run go on bound each other.
-/
namespace Conformance.Group

variable {κ : Type}

section Marks

/-- An exchange that finds the stop token unset. -/
def lets (token : Nat) : Prog.Exchange (@Action.Resp κ) → Bool
  | ⟨.stopped token', stopped⟩ => token' == token && !(stopped : Bool)
  | _ => false

/-- How often the stop token was found unset. -/
def clearances (token : Nat) (t : Trail κ) : Nat := t.countP (lets token)

/-- The cursor of a group after a trail. -/
def cursorAfter (g : Nat) (cursor : Option Nat) (t : Trail κ) : Option Nat :=
  t.foldl (fun cursor a => a.1.cursorBy g cursor) cursor

variable {r : Option CheckRef} {t u : Trail κ}

theorem clearances_append (token : Nat) (t u : Trail κ) :
    clearances token (t ++ u) = clearances token t + clearances token u := List.countP_append

theorem clearances_cons (token : Nat) (a : Prog.Exchange (@Action.Resp κ)) (t : Trail κ) :
    clearances token (a :: t) = clearances token t + if lets token a then 1 else 0 :=
  List.countP_cons

theorem cursorAfter_cons (g : Nat) (cursor : Option Nat) (a : Prog.Exchange (@Action.Resp κ))
    (t : Trail κ) : cursorAfter g cursor (a :: t) = cursorAfter g (a.1.cursorBy g cursor) t := rfl

theorem cursorAfter_append (g : Nat) (cursor : Option Nat) (t u : Trail κ) :
    cursorAfter g cursor (t ++ u) = cursorAfter g (cursorAfter g cursor t) u := List.foldl_append

theorem clearances_of_within (h : ∀ a ∈ t, IsWithin r a.1) (token : Nat) :
    clearances token t = 0 := by
  refine List.countP_eq_zero.mpr ?_
  intro a ha hlets
  obtain ⟨op, answer⟩ := a
  cases op with
  | stopped token' => exact h _ ha
  | _ => cases hlets

theorem cursorAfter_of_within (h : ∀ a ∈ t, IsWithin r a.1) (g : Nat) (cursor : Option Nat) :
    cursorAfter g cursor t = cursor := by
  induction t with
  | nil => rfl
  | cons a t ih =>
    obtain ⟨ha, ht⟩ := List.forall_mem_cons.mp h
    have hsame : a.1.cursorBy g cursor = cursor := by
      obtain ⟨op, answer⟩ := a
      cases op with
      | setCursor => exact absurd ha id
      | _ => rfl
    rw [cursorAfter, List.foldl_cons, hsame]
    exact ih ht

/-- A worker that is run alone leaves the cursor where its trail has put it. -/
theorem cursorOf_exec {α : Type} (p : Worker κ α) {e : Engine κ} {g : Nat}
    (hg : (e.group? g).isSome) :
    (p.exec Action.apply e).2.cursorOf g =
      cursorAfter g (e.cursorOf g) (p.trail Action.apply e) := by
  induction p generalizing e with
  | done value => rfl
  | panic q => rfl
  | ask op next ih =>
    rw [Prog.exec, ih _ ((op.isSome_group?_apply e g).trans hg), op.cursorOf_apply hg]
    rfl

theorem cursorOf_exec_of_within {α : Type} {p : Worker κ α} (hp : p.Only (IsWithin r))
    {e : Engine κ} {g : Nat} (hg : (e.group? g).isSome) :
    (p.exec Action.apply e).2.cursorOf g = e.cursorOf g := by
  rw [cursorOf_exec p hg]
  exact cursorAfter_of_within (hp.goes (Prog.goes_trail Action.apply p e)) g _

theorem isSome_group?_exec {α : Type} (p : Worker κ α) (e : Engine κ) (g : Nat) :
    ((p.exec Action.apply e).2.group? g).isSome = (e.group? g).isSome := by
  induction p generalizing e with
  | done value => rfl
  | panic q => rfl
  | ask op next ih => exact (ih _ _).trans (op.isSome_group?_apply e g)

/-- A second part that leaves the cursor alone. -/
theorem cursorOf_exec_bind {α β : Type} (p : Worker κ α) {f : α → Worker κ β}
    (hf : ∀ value, (f value).Only (IsWithin r)) {e : Engine κ} {g : Nat}
    (hg : (e.group? g).isSome) :
    ((p.bind f).exec Action.apply e).2.cursorOf g = (p.exec Action.apply e).2.cursorOf g := by
  have hthere := (isSome_group?_exec p e g).trans hg
  rw [Prog.exec_bind]
  generalize p.exec Action.apply e = y at hthere ⊢
  obtain ⟨x, e₁⟩ := y
  cases x with
  | ok value => exact cursorOf_exec_of_within (hf value) hthere
  | error q => rfl

end Marks

section Rounds

/-- Whole rounds, from the check at a place on: the stop token was found unset, the iteration came
to no error, and the cursor was moved on. -/
inductive Laps (s : Setting κ) : Nat → List (Member κ) → Trail κ → Nat → List (Member κ) → Prop
  | stay (index : Nat) (ms : List (Member κ)) : Laps s index ms [] index ms
  | next {index last : Nat} {m : Member κ} {later rest : List (Member κ)} {t u : Trail κ}
      (status : Status) (hwell : (iteration s m later).Goes t (.ok []))
      (h : Laps s (index + 1) later u last rest) :
      Laps s index (m :: later) (⟨.stopped s.token, false⟩ :: (t ++
        ⟨.request (.status m.1), status⟩ :: ⟨.setCursor s.group (some (index + 1)), ()⟩ :: u))
        last rest

/-- What has been begun after the last whole round. -/
inductive Begun (s : Setting κ) : List (Member κ) → Trail κ → Prop
  | nothing (ms : List (Member κ)) : Begun s ms []
  | stopped (m : Member κ) (later : List (Member κ)) :
      Begun s (m :: later) [⟨.stopped s.token, true⟩]
  | inside {m : Member κ} {later : List (Member κ)} {t u : Trail κ}
      {q : Worker κ (List GroupError)} (h : (iteration s m later).Reaches t q)
      (hu : ∀ a ∈ u, IsWithin none a.1) :
      Begun s (m :: later) (⟨.stopped s.token, false⟩ :: (t ++ u))

theorem reaches_runFrom {s : Setting κ} {ms : List (Member κ)} :
    ∀ {index failed : Nat} {t : Trail κ} {q : Worker κ Outcome},
      (runFrom s index failed ms).Reaches t q →
      ∃ u v last rest, t = u ++ v ∧ Laps s index ms u last rest ∧ Begun s rest v := by
  induction ms with
  | nil =>
    intro index failed t q h
    obtain rfl := Prog.reaches_done h
    exact ⟨[], [], index, [], rfl, .stay index [], .nothing []⟩
  | cons m later ih =>
    intro index failed t q h
    rw [runFrom_cons] at h
    rcases Prog.reaches_request_bind h with rfl | ⟨stopped, t, rfl, hgone⟩
    · exact ⟨[], [], index, _, rfl, .stay index _, .nothing _⟩
    · cases stopped with
      | true =>
        obtain rfl := Prog.reaches_done hgone
        exact ⟨[], _, index, _, rfl, .stay index _, .stopped m later⟩
      | false =>
        have hinside {t u : Trail κ} {q : Worker κ (List GroupError)}
            (hround : (iteration s m later).Reaches t q) (hu : ∀ a ∈ u, IsWithin none a.1) :
            ∃ u' v last rest, ⟨.stopped s.token, false⟩ :: (t ++ u) = u' ++ v ∧
              Laps s index (m :: later) u' last rest ∧ Begun s rest v :=
          ⟨[], _, index, _, rfl, .stay index _, .inside hround hu⟩
        rcases Prog.reaches_bind hgone with ⟨q', hround⟩ | ⟨t₁, t₂, errors, rfl, hround, hrest⟩
        · simpa using hinside hround (List.forall_mem_nil _)
        · obtain ⟨q', hreached⟩ := hround.exists_reaches
          cases errors with
          | cons error errors =>
            obtain rfl := Prog.reaches_done hrest
            exact hinside hreached (List.forall_mem_nil _)
          | nil =>
            rcases Prog.reaches_request_bind hrest with rfl | ⟨status, t₂, rfl, hmoved⟩
            · exact hinside hreached (List.forall_mem_nil _)
            · rcases Prog.reaches_request_bind hmoved with rfl | ⟨_, t₂, rfl, hnext⟩
              · exact hinside hreached (by simp [IsWithin])
              · obtain ⟨u, v, last, rest, rfl, hlaps, hbegun⟩ := ih hnext
                exact ⟨_, v, last, rest, by simp, .next status hround hlaps, hbegun⟩

end Rounds

section Laps

variable {s : Setting κ} {index last : Nat} {ms rest : List (Member κ)} {t : Trail κ}

theorem lets_true (token : Nat) : lets (κ := κ) token ⟨.stopped token, false⟩ = true := by
  simp [lets]

theorem Laps.members (h : Laps s index ms t last rest) :
    ∃ done, ms = done ++ rest ∧ index + done.length = last := by
  induction h with
  | stay index ms => exact ⟨[], rfl, rfl⟩
  | @next index _ m _ _ _ _ _ _ _ ih =>
    obtain ⟨done, rfl, rfl⟩ := ih
    exact ⟨m :: done, rfl, by rw [List.length_cons]; omega⟩

theorem Laps.cursor (h : Laps s index ms t last rest) :
    cursorAfter s.group (some index) t = some last := by
  induction h with
  | stay index ms => rfl
  | @next index _ m later _ t u status hwell _ ih =>
    have hwithin := (within_iteration s m later).goes hwell
    rw [cursorAfter_cons, cursorAfter_append, cursorAfter_of_within hwithin, cursorAfter_cons,
      cursorAfter_cons]
    simpa [Action.cursorBy] using ih

theorem Laps.clearances (h : Laps s index ms t last rest) :
    index + clearances s.token t = last := by
  induction h with
  | stay index ms => rfl
  | @next index _ m later _ t u status hwell _ ih =>
    have hwithin := clearances_of_within ((within_iteration s m later).goes hwell) s.token
    rw [clearances_cons, clearances_append, hwithin, clearances_cons, clearances_cons, lets_true]
    simp only [lets, if_true, Bool.false_eq_true, if_false]
    omega

/-- Callbacks for single checks are entered in the rounds of these checks. -/
theorem Laps.check (h : Laps s index ms t last rest) {a : Prog.Exchange (@Action.Resp κ)}
    (ha : a ∈ t) {r : CheckRef} (hr : a.1.check? = some r) :
    ∃ i m, ms[i]? = some m ∧ m.1 = r ∧ index + i < last := by
  induction h with
  | stay index ms => cases ha
  | @next index last m later rest t u status hwell hlater ih =>
    have hwithin := (within_iteration s m later).goes hwell
    obtain ⟨done, -, hlast⟩ := hlater.members
    rcases List.mem_cons.mp ha with rfl | ha
    · cases hr
    · rcases List.mem_append.mp ha with ha | ha
      · exact ⟨0, m, rfl, Option.some.inj ((hwithin a ha).check hr), by omega⟩
      · rcases List.mem_cons.mp ha with rfl | ha
        · cases hr
        · rcases List.mem_cons.mp ha with rfl | ha
          · cases hr
          · obtain ⟨i, n, hn, hsame, hi⟩ := ih ha
            exact ⟨i + 1, n, hn, hsame, by omega⟩

/-- The iterations of whole rounds came to no error. -/
theorem Laps.ran (h : Laps s index ms t last rest) :
    ∀ {i : Nat} {m : Member κ}, index + i < last → ms[i]? = some m →
      ∃ u later, u <:+: t ∧ (iteration s m later).Goes u (.ok []) := by
  induction h with
  | stay index ms => exact fun hi _ => absurd hi (by omega)
  | @next index last m later rest t u status hwell hlater ih =>
    intro i n hi hn
    cases i with
    | zero =>
      cases hn
      exact ⟨t, later, ⟨[⟨.stopped s.token, false⟩], _, rfl⟩, hwell⟩
    | succ i =>
      obtain ⟨v, behind, hv, hgoes⟩ := ih (by omega) hn
      refine ⟨v, behind, hv.trans (List.IsSuffix.isInfix ?_), hgoes⟩
      exact ⟨⟨.stopped s.token, false⟩ :: (t ++ [⟨.request (.status m.1), status⟩,
        ⟨.setCursor s.group (some (index + 1)), ()⟩]), by simp⟩

theorem Laps.le_of_setCursor (h : Laps s index ms t last rest) {place : Nat}
    (hmem : ⟨.setCursor s.group (some place), ()⟩ ∈ t) : place ≤ last := by
  induction h with
  | stay index ms => cases hmem
  | @next index last m later rest t u status hwell hlater ih =>
    obtain ⟨done, -, hlast⟩ := hlater.members
    rcases List.mem_cons.mp hmem with hfirst | hmem
    · cases hfirst
    · rcases List.mem_append.mp hmem with hmem | hmem
      · exact ((within_iteration s m later).goes hwell _ hmem).elim
      · rcases List.mem_cons.mp hmem with hasked | hmem
        · cases hasked
        · rcases List.mem_cons.mp hmem with hmoved | hmem
          · cases hmoved
            omega
          · exact ih hmem

end Laps

section Begun

variable {s : Setting κ} {rest : List (Member κ)} {t : Trail κ}

theorem Begun.cursor (h : Begun s rest t) (g : Nat) (cursor : Option Nat) :
    cursorAfter g cursor t = cursor := by
  cases h with
  | nothing => rfl
  | stopped m later => rfl
  | @inside m later t u q hreaches hu =>
    rw [cursorAfter_cons, cursorAfter_append,
      cursorAfter_of_within ((within_iteration s m later).reaches hreaches),
      cursorAfter_of_within hu]
    rfl

/-- The stop token was looked at once at most, and only if it was found unset a callback for the
next check may have been entered. -/
theorem Begun.clearances (h : Begun s rest t) :
    clearances s.token t ≤ 1 ∧ ∀ a ∈ t, ∀ r, a.1.check? = some r →
      clearances s.token t = 1 ∧ ∃ m later, rest = m :: later ∧ m.1 = r := by
  cases h with
  | nothing => exact ⟨Nat.zero_le 1, List.forall_mem_nil _⟩
  | stopped m later =>
    refine ⟨by simp [Group.clearances, lets], ?_⟩
    intro a ha r hr
    cases List.mem_singleton.mp ha
    cases hr
  | @inside m later t u q hreaches hu =>
    have hwithin := (within_iteration s m later).reaches hreaches
    have hone : Group.clearances s.token (⟨.stopped s.token, false⟩ :: (t ++ u)) = 1 := by
      rw [clearances_cons, clearances_append, clearances_of_within hwithin,
        clearances_of_within hu, lets_true]
      rfl
    refine ⟨by omega, ?_⟩
    intro a ha r hr
    refine ⟨hone, m, later, rfl, ?_⟩
    rcases List.mem_cons.mp ha with rfl | ha
    · cases hr
    · rcases List.mem_append.mp ha with ha | ha
      · exact Option.some.inj ((hwithin a ha).check hr)
      · cases (hu a ha).check hr

theorem Begun.not_mem_setCursor (h : Begun s rest t) (g : Nat) (cursor : Option Nat) :
    ⟨.setCursor g cursor, ()⟩ ∉ t := by
  intro hmem
  cases h with
  | nothing => cases hmem
  | stopped m later => cases List.mem_singleton.mp hmem
  | @inside m later t u q hreaches hu =>
    rcases List.mem_cons.mp hmem with hlooked | hmem
    · cases hlooked
    · rcases List.mem_append.mp hmem with hmem | hmem
      · exact (within_iteration s m later).reaches hreaches _ hmem
      · exact hu _ hmem

end Begun

section Whole

/-- The trail of a run that may break off anywhere: nothing yet, the way up to the first round, or
rounds of the checks that were selected from those of the group. -/
inductive Headway (b : Behaviour κ) (g : Nat) (filter : Label.Filter) (token : Nat) : Trail κ → Prop
  | nothing : Headway b g filter token []
  | ahead {t : Trail κ} (h : ∀ a ∈ t, IsWithin none a.1) :
      Headway b g filter token (⟨.setCursor g none, ()⟩ :: t)
  | rounds {checks : List (Check κ)} {t u v w : Trail κ} {last : Nat} {rest : List (Member κ)}
      (name : String) (hooks : Hooks κ) (handle : Option AbortHandle)
      (hbefore : ∀ a ∈ t, IsWithin none a.1)
      (hlaps : Laps ⟨b, g, name, hooks, token, handle⟩ 0 (selected filter (members g checks)) u
        last rest)
      (hbegun : Begun ⟨b, g, name, hooks, token, handle⟩ rest v)
      (hafter : ∀ a ∈ w, IsWithin none a.1) :
      Headway b g filter token (⟨.setCursor g none, ()⟩ :: ⟨.request (.checks g), checks⟩ ::
        (t ++ ⟨.setCursor g (some 0), ()⟩ :: (u ++ (v ++ w))))

variable {b : Behaviour κ} {g : Nat} {filter : Label.Filter} {token : Nat}

theorem reaches_upToLast {s : Setting κ} {first : Member κ} {rest : List (Member κ)}
    {t : Trail κ} {q : Worker κ Outcome} (h : (upToLast s first rest).Reaches t q) :
    (∀ a ∈ t, IsWithin none a.1) ∨
      ∃ t₁ u v last later, t = t₁ ++ ⟨.setCursor s.group (some 0), ()⟩ :: (u ++ v) ∧
        (∀ a ∈ t₁, IsWithin none a.1) ∧ Laps s 0 (first :: rest) u last later ∧
        Begun s later v := by
  have hhook : (runHook s "beforeAll" s.hooks.beforeAll
      (.beforeAll s.group ((first :: rest).map Prod.fst)) first.1 (first :: rest)).Only
        (IsWithin none) := within_runHook _ _ (.inl rfl) _ _
  rcases Prog.reaches_bind h with ⟨q', hbefore⟩ | ⟨t₁, t₂, before, rfl, hbefore, hrest⟩
  · exact .inl (hhook.reaches hbefore)
  · have hwithin := hhook.goes hbefore
    cases before with
    | some error =>
      obtain rfl := Prog.reaches_done hrest
      rw [List.append_nil]
      exact .inl hwithin
    | none =>
      rcases Prog.reaches_request_bind hrest with rfl | ⟨_, t₂, rfl, hlooped⟩
      · rw [List.append_nil]
        exact .inl hwithin
      · obtain ⟨u, v, last, later, rfl, hlaps, hbegun⟩ := reaches_runFrom hlooped
        exact .inr ⟨t₁, u, v, last, later, rfl, hwithin, hlaps, hbegun⟩

theorem within_closing (s : Setting κ) (first : Member κ) (rest : List (Member κ))
    (outcome : Outcome) : (closing s first rest outcome).Only (IsWithin none) :=
  (within_runHook _ _ (.inl rfl) _ _).bind fun _ => trivial

theorem reaches_runSelected {s : Setting κ} {first : Member κ} {rest : List (Member κ)}
    {t : Trail κ} {q : Worker κ Outcome} (h : (runSelected s first rest).Reaches t q) :
    (∀ a ∈ t, IsWithin none a.1) ∨
      ∃ t₁ u v w last later, t = t₁ ++ ⟨.setCursor s.group (some 0), ()⟩ :: (u ++ (v ++ w)) ∧
        (∀ a ∈ t₁, IsWithin none a.1) ∧ Laps s 0 (first :: rest) u last later ∧
        Begun s later v ∧ ∀ a ∈ w, IsWithin none a.1 := by
  rw [runSelected_eq] at h
  obtain ⟨t₁, w, rfl, ⟨q', hupTo⟩, hw⟩ : ∃ t₁ w, t = t₁ ++ w ∧
      (∃ q', (upToLast s first rest).Reaches t₁ q') ∧ ∀ a ∈ w, IsWithin none a.1 := by
    rcases Prog.reaches_bind h with ⟨q', hupTo⟩ | ⟨t₁, t₂, outcome, rfl, hupTo, hlast⟩
    · exact ⟨t, [], by simp, ⟨q', hupTo⟩, List.forall_mem_nil _⟩
    · exact ⟨t₁, t₂, rfl, hupTo.exists_reaches, (within_closing s first rest outcome).reaches hlast⟩
  rcases reaches_upToLast hupTo with hwithin | ⟨t₁, u, v, last, later, rfl, ht₁, hlaps, hbegun⟩
  · exact .inl (List.forall_mem_append.mpr ⟨hwithin, hw⟩)
  · exact .inr ⟨t₁, u, v, w, last, later, by simp, ht₁, hlaps, hbegun, hw⟩

/-- Whatever a run has done so far, it has made headway. -/
theorem headway_of_reaches {handle : Option AbortHandle} {t : Trail κ} {q : Worker κ Outcome}
    (h : (run b g filter token handle).Reaches t q) : Headway b g filter token t := by
  rcases Prog.reaches_request_bind h with rfl | ⟨_, t, rfl, hreset⟩
  · exact .nothing
  · rcases Prog.reaches_request_bind hreset with rfl | ⟨checks, t, rfl, hchecked⟩
    · exact .ahead (List.forall_mem_nil _)
    · have hahead {t : Trail κ} (ht : ∀ a ∈ t, IsWithin none a.1) : Headway b g filter token
          (⟨.setCursor g none, ()⟩ :: ⟨.request (.checks g), checks⟩ :: t) :=
        .ahead (List.forall_mem_cons.mpr ⟨trivial, ht⟩)
      have hselect := within_select (r := none) filter (members g checks)
      rcases Prog.reaches_bind hchecked with
        ⟨q', hselecting⟩ | ⟨t₁, t₂, chosen, rfl, hselected, hrest⟩
      · exact hahead (hselect.reaches hselecting)
      · have hwithin := hselect.goes hselected
        cases (goes_select hselected).1
        cases hchosen : selected filter (members g checks) with
        | nil =>
          rw [hchosen] at hrest
          obtain rfl := Prog.reaches_done hrest
          rw [List.append_nil]
          exact hahead hwithin
        | cons first rest =>
          rw [hchosen] at hrest
          rcases Prog.reaches_request_bind hrest with rfl | ⟨hooks, t₂, rfl, hnamed⟩
          · rw [List.append_nil]
            exact hahead hwithin
          · rcases Prog.reaches_request_bind hnamed with rfl | ⟨name, t₂, rfl, hrun⟩
            · refine hahead (List.forall_mem_append.mpr ⟨hwithin, ?_⟩)
              exact List.forall_mem_singleton.mpr trivial
            · have htwo : ∀ a ∈ ([⟨.hooks g, hooks⟩, ⟨.groupName g, name⟩] : Trail κ),
                  IsWithin none a.1 := by simp [IsWithin]
              rcases reaches_runSelected hrun with
                hlater | ⟨t₃, u, v, w, last, later, rfl, ht₃, hlaps, hbegun, hw⟩
              · refine hahead (List.forall_mem_append.mpr ⟨hwithin, ?_⟩)
                exact List.forall_mem_append.mpr ⟨htwo, hlater⟩
              · rw [← hchosen] at hlaps
                have hbefore := List.forall_mem_append.mpr
                  ⟨hwithin, List.forall_mem_append.mpr ⟨htwo, ht₃⟩⟩
                simpa using Headway.rounds name hooks handle hbefore hlaps hbegun hw

variable {t : Trail κ}

theorem clearances_rounds {checks : List (Check κ)} {t u v w : Trail κ}
    (hbefore : ∀ a ∈ t, IsWithin none a.1) (hafter : ∀ a ∈ w, IsWithin none a.1) :
    clearances token (⟨.setCursor g none, ()⟩ :: ⟨.request (.checks g), checks⟩ ::
      (t ++ ⟨.setCursor g (some 0), ()⟩ :: (u ++ (v ++ w)))) =
        clearances token u + clearances token v := by
  simp only [clearances_cons, clearances_append, clearances_of_within hbefore,
    clearances_of_within hafter, lets, Bool.false_eq_true, if_false]
  omega

/-- The stop token is found unset once more than the cursor counts, at most. -/
theorem Headway.clearances_le (h : Headway b g filter token t) (cursor : Option Nat) :
    clearances token t ≤ (cursorAfter g cursor t).elim 0 (· + 1) := by
  cases h with
  | nothing => exact Nat.zero_le _
  | ahead h =>
    rw [clearances_cons, clearances_of_within h]
    exact Nat.zero_le _
  | @rounds checks t u v w last rest name hooks handle hbefore hlaps hbegun hafter =>
    have hcursor : cursorAfter g cursor (⟨.setCursor g none, ()⟩ ::
        ⟨.request (.checks g), checks⟩ ::
          (t ++ ⟨.setCursor g (some 0), ()⟩ :: (u ++ (v ++ w)))) = some last := by
      simp only [cursorAfter_cons, cursorAfter_append, cursorAfter_of_within hbefore,
        cursorAfter_of_within hafter, hbegun.cursor, Action.cursorBy, if_true]
      exact hlaps.cursor
    have hrounds : 0 + clearances token u = last := hlaps.clearances
    have hone : clearances token v ≤ 1 := hbegun.clearances.1
    rw [hcursor, clearances_rounds hbefore hafter, Option.elim_some]
    omega

/-- A callback for a check is entered only in its own round, after the stop token was found unset
once for each selected check up to it. -/
theorem Headway.check (h : Headway b g filter token t) {a : Prog.Exchange (@Action.Resp κ)}
    (ha : a ∈ t) {r : CheckRef} (hr : a.1.check? = some r) :
    ∃ checks i m, ⟨.request (.checks g), checks⟩ ∈ t ∧
      (selected filter (members g checks))[i]? = some m ∧ m.1 = r ∧ i < clearances token t := by
  have hnone {t : Trail κ} (ht : ∀ a ∈ t, IsWithin none a.1) : a ∉ t := by
    intro ha
    cases (ht a ha).check hr
  cases h with
  | nothing => cases ha
  | ahead h =>
    rcases List.mem_cons.mp ha with rfl | ha
    · cases hr
    · exact absurd ha (hnone h)
  | @rounds checks t u v w last rest name hooks handle hbefore hlaps hbegun hafter =>
    have hread : ⟨.request (.checks g), checks⟩ ∈ (⟨.setCursor g none, ()⟩ ::
        ⟨.request (.checks g), checks⟩ ::
          (t ++ ⟨.setCursor g (some 0), ()⟩ :: (u ++ (v ++ w))) : Trail κ) := by simp
    have hrounds : 0 + clearances token u = last := hlaps.clearances
    rw [clearances_rounds hbefore hafter]
    rcases List.mem_cons.mp ha with rfl | ha
    · cases hr
    · rcases List.mem_cons.mp ha with rfl | ha
      · cases hr
      · rcases List.mem_append.mp ha with ha | ha
        · exact absurd ha (hnone hbefore)
        · rcases List.mem_cons.mp ha with rfl | ha
          · cases hr
          · rcases List.mem_append.mp ha with ha | ha
            · obtain ⟨i, m, hm, hsame, hi⟩ := hlaps.check ha hr
              exact ⟨checks, i, m, hread, hm, hsame, by omega⟩
            · rcases List.mem_append.mp ha with ha | ha
              · obtain ⟨hone, m, later, rfl, hsame⟩ := hbegun.clearances.2 a ha r hr
                obtain ⟨done, hdone, hlength⟩ := hlaps.members
                have hone : clearances token v = 1 := hone
                refine ⟨checks, last, m, hread, ?_, hsame, by omega⟩
                rw [hdone, List.getElem?_append_right (by omega)]
                have hzero : last - done.length = 0 := by omega
                rw [hzero]
                rfl
              · exact absurd ha (hnone hafter)

/-- Where the cursor has been at a place, the iterations of the checks before it came to no
error. -/
theorem Headway.ran (h : Headway b g filter token t) {place : Nat}
    (hplace : ⟨.setCursor g (some place), ()⟩ ∈ t) :
    ∃ checks, ⟨.request (.checks g), checks⟩ ∈ t ∧
      ∀ {i : Nat} {m : Member κ}, i < place →
        (selected filter (members g checks))[i]? = some m →
        ∃ u s later, u <:+: t ∧ s.behaviour = b ∧ (iteration s m later).Goes u (.ok []) := by
  have hnone {r : Option CheckRef} {t : Trail κ} (ht : ∀ a ∈ t, IsWithin r a.1) :
      ⟨.setCursor g (some place), ()⟩ ∉ t := fun hmem => ht _ hmem
  cases h with
  | nothing => cases hplace
  | ahead h =>
    rcases List.mem_cons.mp hplace with hfirst | hplace
    · cases hfirst
    · exact absurd hplace (hnone h)
  | @rounds checks t u v w last rest name hooks handle hbefore hlaps hbegun hafter =>
    refine ⟨checks, by simp, ?_⟩
    intro i m hi hm
    have hlast : place ≤ last := by
      simp only [List.mem_cons, List.mem_append] at hplace
      rcases hplace with hreset | hread | hmem | hstart | hmem | hmem | hmem
      · cases hreset
      · cases hread
      · exact absurd hmem (hnone hbefore)
      · cases hstart
        exact Nat.zero_le _
      · exact hlaps.le_of_setCursor hmem
      · exact absurd hmem (hbegun.not_mem_setCursor g (some place))
      · exact absurd hmem (hnone hafter)
    obtain ⟨t', later, hinfix, hgoes⟩ := hlaps.ran (i := i) (by omega) hm
    refine ⟨t', _, later, hinfix.trans ?_, rfl, hgoes⟩
    exact ⟨⟨.setCursor g none, ()⟩ :: ⟨.request (.checks g), checks⟩ ::
      (t ++ [⟨.setCursor g (some 0), ()⟩]), v ++ w, by simp⟩

end Whole

end Conformance.Group
