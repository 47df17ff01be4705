import Conformance.Proofs.Group.CutOff
import Conformance.Proofs.Group.Propagation

/-!
What an abort makes of the checks of a group whose run has been cut off: the check at which it was
cut off is aborted, the ones before it keep their results, and the ones after it are skipped.
-/
namespace Conformance.Group

variable {κ : Type}

section Silence

variable {s : Setting κ} {first m : Member κ} {rest later : List (Member κ)}
  {done : List (Member κ × Engine κ)} {e e' cut : Engine κ}

theorem exec_runHook_well {name : String} {hook : Option κ} {call : Call} {current : CheckRef}
    {remaining : List (Member κ)}
    (h : (runHook s name hook call current remaining).exec Action.apply e = (.ok none, e')) :
    e' = afterHook s.behaviour hook call e := by
  rw [runHook_eq] at h
  cases part_of_exec h with
  | well hattempt => rw [← exec_tryHook s.behaviour name, hattempt]

/-- A request to abort changes no result on its own account. If nothing else goes wrong, all that
happens after it is that the hooks are called. -/
theorem CutOff.silent (h : CutOff s first rest e done m later true cut) {outcome : Outcome}
    (hrun : ((upToLast s first rest).bind (closing s first rest)).exec Action.apply e =
      (.ok outcome, e')) (hone : outcome.errors.length = 1) :
    ∃ ran, (∀ r, ran.result? r = cut.result? r) ∧
      e' = afterHook s.behaviour s.hooks.afterAll
        (.afterAll s.group ((first :: rest).map Prod.fst))
        (afterHook s.behaviour s.hooks.afterEach (.afterEach m.1) ran) := by
  cases h with
  | asked hready hrounds hgoes hopened hasks =>
    obtain ⟨message, ran, hsame, hround⟩ := exec_iteration_asked hopened hasks
    refine ⟨ran, hsame, ?_⟩
    obtain ⟨inner, last, hinner, hclosing⟩ := Prog.exec_bind_ok hrun
    rw [exec_upToLast hready hrounds, exec_runFrom_asked hgoes hopened hasks] at hinner
    obtain ⟨errors, e₁, hiteration, hended⟩ := Prog.exec_bind_ok hinner
    cases hended
    rw [hround] at hiteration
    obtain ⟨after, e₂, hafterEach, hiterated⟩ := Prog.exec_bind_ok hiteration
    cases hiterated
    obtain ⟨after', e₃, hafterAll, hclosed⟩ := Prog.exec_bind_ok hclosing
    cases hclosed
    cases after with
    | some error => simp at hone
    | none =>
      cases after' with
      | some error => simp at hone
      | none => rw [exec_runHook_well hafterAll, exec_runHook_well hafterEach]

end Silence

section Labels

/-- What an abort makes of the checks of a group whose cursor stands at a place. -/
theorem exists_labelled {e : Engine κ} {g place : Nat} (hcursor : e.cursorOf g = some place)
    (filter : Label.Filter) (reason : String) :
    ∃ after, (labelAborted g filter reason).exec Request.apply e = (.ok (), after) ∧
      (∀ i n, (selected filter (membersOf e g))[i]? = some n → ∃ v, e.standing? n.1 = some v ∧
        after.standing? n.1 = some (
          if i < place then v
          else if i = place then if v.state = .aborted then v else ⟨.aborted, reason⟩
          else v.skip reason)) ∧
      ∀ n ∈ membersOf e g, filter.selects n.2.labels = false →
        ∃ v, e.standing? n.1 = some v ∧ after.standing? n.1 = some (v.skip notMatching) := by
  refine ⟨_, exec_labelAborted g filter reason e, ?_, ?_⟩
  · intro i n hn
    obtain ⟨v, hv⟩ := exists_standing_of_mem (List.mem_filter.mp (List.mem_of_getElem? hn)).1
    refine ⟨v, hv, ?_⟩
    rw [standing?_labelled_selected hn, hv, Option.map_some, hcursor, standing_after_labelAt]
  · intro n hn hout
    obtain ⟨v, hv⟩ := exists_standing_of_mem hn
    refine ⟨v, hv, ?_⟩
    rw [standing?_labelled_other hn hout, hv, Option.map_some]

end Labels

section Results

variable {b : Behaviour κ} {g token : Nat} {filter : Label.Filter} {handle : Option AbortHandle}
  {first m : Member κ} {rest later : List (Member κ)} {done : List (Member κ × Engine κ)}
  {e cut : Engine κ} {asked : Bool}

theorem isSome_group?_selecting (g : Nat) (filter : Label.Filter) (e : Engine κ) (g' : Nat) :
    ((selecting g filter e).group? g').isSome = (e.group? g').isSome := by
  have hselected := isSome_group?_exec (select filter (membersOf e g))
    (e.modifyGroup g fun group => { group with cursor := none }) g'
  rw [exec_select] at hselected
  exact hselected.trans (e.isSome_group?_modifyGroup g _ g')

/-- The checks before the one at which the run was cut off have come to the hook after all checks as
their own iterations left them. -/
theorem CutOff.exists_standing_last (hb : IsEachLocal b)
    (hchosen : selected filter (membersOf e g) = first :: rest)
    (hcut : CutOff (settingOn b g token handle (selecting g filter e)) first rest
      (selecting g filter e) done m later asked cut) {p : Member κ × Engine κ} (hp : p ∈ done) :
    ∃ v, p.2.standing? p.1.1 = some v ∧
      ((upToLast (settingOn b g token handle (selecting g filter e)) first rest).exec Action.apply
        (selecting g filter e)).2.standing? p.1.1 = some v := by
  have hthere : ∀ n ∈ first :: rest, ∃ v, (selecting g filter e).standing? n.1 = some v := by
    intro n hn
    rw [← hchosen] at hn
    exact exists_standing_selecting (List.mem_filter.mp hn).1
  have hnodup : ((first :: rest).map Prod.fst).Nodup := hchosen ▸ nodup_selected e g filter
  obtain ⟨v, hv⟩ := hcut.exists_standing hthere p hp
  exact ⟨v, hv, hcut.keeps_done hb hnodup p hp v hv⟩

end Results

/-- What an abort makes of a run that was cut off, for every group, filter and behaviour whose
callbacks for single checks set results on their own check only. The cursor is left at the check at
which the run was cut off, and no callback for a later check has been called. The checks before it
have come to the hook after all checks as their own iterations left them. When the group is
labelled for whatever reason, the selected checks before the cursor keep their state and reason, the
one at the cursor is aborted unless it had been aborted, the later ones are skipped unless they were
settled, and so are the ones that are not selected. A request to abort changes nothing on its own
account: if nothing else goes wrong, only the hooks after it do. -/
theorem abort_attribution {b : Behaviour κ} (hb : IsEachLocal b) {g : Nat} {filter : Label.Filter}
    {e cut : Engine κ} {first m : Member κ} {rest later : List (Member κ)} {token : Nat}
    {handle : Option AbortHandle} {done : List (Member κ × Engine κ)} {asked : Bool}
    (hchosen : selected filter (membersOf e g) = first :: rest)
    (hcut : CutOff (settingOn b g token handle (selecting g filter e)) first rest
      (selecting g filter e) done m later asked cut) :
    let s := settingOn b g token handle (selecting g filter e)
    let worker := run b g filter token handle
    let last := ((upToLast s first rest).exec Action.apply (selecting g filter e)).2
    let ended := (worker.exec Action.apply e).2
    let chosen := selected filter (membersOf ended g)
    (ended.cursorOf g = some done.length ∧ chosen[done.length]? = some m ∧
      ∀ a ∈ worker.trail Action.apply e, ∀ r, a.1.check? = some r →
        ∃ i n, chosen[i]? = some n ∧ n.1 = r ∧ i ≤ done.length) ∧
    (∀ (i : Nat) (p : Member κ × Engine κ), done[i]? = some p → chosen[i]? = some p.1 ∧
      ∃ v, p.2.standing? p.1.1 = some v ∧ last.standing? p.1.1 = some v) ∧
    (∀ reason, ∃ after, (labelAborted g filter reason).exec Request.apply ended = (.ok (), after) ∧
      (∀ i n, chosen[i]? = some n → ∃ v, ended.standing? n.1 = some v ∧
        after.standing? n.1 = some (
          if i < done.length then v
          else if i = done.length then if v.state = .aborted then v else ⟨.aborted, reason⟩
          else v.skip reason)) ∧
      ∀ n ∈ membersOf ended g, filter.selects n.2.labels = false →
        ∃ v, ended.standing? n.1 = some v ∧ after.standing? n.1 = some (v.skip notMatching)) ∧
    (asked = true → ∀ outcome, (worker.exec Action.apply e).1 = .ok outcome →
      outcome.errors.length = 1 →
      ∃ ran, (∀ r, ran.result? r = cut.result? r) ∧
        ended = afterHook b s.hooks.afterAll (.afterAll g ((first :: rest).map Prod.fst))
          (afterHook b s.hooks.afterEach (.afterEach m.1) ran)) := by
  intro s worker last ended chosen
  have hrun : worker.exec Action.apply e =
      ((upToLast s first rest).bind (closing s first rest)).exec Action.apply
        (selecting g filter e) := by rw [exec_run hchosen, runSelected_eq]
  have hfirst : first ∈ membersOf e g :=
    (List.mem_filter.mp (hchosen ▸ List.mem_cons_self : first ∈ selected filter _)).1
  have hg : (e.group? g).isSome := isSome_group?_of_mem hfirst
  have hcursor : ended.cursorOf g = some done.length := by
    have hleft := hcut.cursorOf ((isSome_group?_selecting g filter e g).trans hg)
    rwa [← hrun] at hleft
  obtain ⟨further, hfurther⟩ : done.map Prod.fst ++ m :: later <+: chosen := by
    rw [← hcut.members, ← hchosen]
    exact isPrefix_selected (isPrefix_checks (grows_worker (p := worker) rfl) g) g filter
  refine ⟨⟨hcursor, ?_, ?_⟩, ?_, ?_, ?_⟩
  · rw [← hfurther]
    simp
  · intro a ha r hr
    obtain ⟨i, n, hn, hsame, hi⟩ := called_up_to_cursor hg ha hr
    have hcursor : ((run b g filter token handle).exec Action.apply e).2.cursorOf g =
        some done.length := hcursor
    rw [hcursor] at hi
    exact ⟨i, n, hn, hsame, Nat.le_of_lt_succ hi⟩
  · intro i p hp
    have hi : i < done.length := (List.getElem?_eq_some_iff.mp hp).1
    refine ⟨?_, hcut.exists_standing_last hb hchosen (List.mem_of_getElem? hp)⟩
    rw [← hfurther, List.append_assoc, List.getElem?_append_left (by simpa using hi),
      List.getElem?_map, hp]
    rfl
  · exact exists_labelled hcursor filter
  · rintro rfl outcome hok hone
    refine hcut.silent ?_ hone
    rw [← hrun]
    exact Prod.ext hok rfl

section Asking

/-- The body of the second check asks for an abort, and wraps the request in a context. -/
def asking : Behaviour Unit where
  act _ call :=
    match call with
    | .body ⟨0, 1⟩ => (Callback.ask (.abort ⟨0, 1⟩ "no answer")).bind fun message =>
        .done (.error ((⟨.abortRequest message, []⟩ : Failure).withContexts ["on the way"]))
    | _ => .done (.ok ())
  excuse _ _ := .done none

theorem asking_isEachLocal : IsEachLocal asking where
  act callback call own r hown hr e v hv := by
    simp only [asking]
    split
    · exact (Action.request (.abort ⟨0, 1⟩ "no answer")).standing?_apply_of_some hv
    · exact hv
  excuse callback call own r hown hr e v hv := hv

/-- Three checks of a group are selected by their label, with a hook after each of them. -/
def asked : Engine Unit :=
  { (Engine.start 0 : Engine Unit) with
    groups := [{ (Group.fresh "g" : Group Unit) with
      hooks := { Hooks.none with afterEach := some () }
      checks := [.fresh (plain "a" "common"), .fresh (plain "b" "common"),
        .fresh (plain "c" "common"), .fresh (plain "d" "rare")] }]
    tokens := [false] }

theorem cutOff_asked :
    ∃ done cut, done.length = 1 ∧
      CutOff (settingOn asking 0 0 none (selecting 0 common asked)) (commonMember 0 "a")
        [commonMember 1 "b", commonMember 2 "c"] (selecting 0 common asked) done
        (commonMember 1 "b") [commonMember 2 "c"] true cut := by
  have hlayer : .abortRequest "b called abort: no answer" ∈
      ((⟨.abortRequest "b called abort: no answer", []⟩ : Failure).withContexts
        ["on the way"]).layers := List.mem_cons_of_mem _ List.mem_cons_self
  exact ⟨[(commonMember 0 "a", _)], _, rfl, .asked rfl (.round rfl rfl (.stay 1 0 _ _)) rfl rfl
    (.mk rfl rfl rfl (.here rfl hlayer))⟩

theorem abort_attribution_asked :
    let ended := ((run asking 0 common 0 none).exec Action.apply asked).2
    IsEachLocal asking ∧
      (∃ done cut, done.length = 1 ∧
        CutOff (settingOn asking 0 0 none (selecting 0 common asked)) (commonMember 0 "a")
          [commonMember 1 "b", commonMember 2 "c"] (selecting 0 common asked) done
          (commonMember 1 "b") [commonMember 2 "c"] true cut) ∧
      ended.cursorOf 0 = some 1 ∧
      ∃ after, (labelAborted 0 common "late").exec Request.apply ended = (.ok (), after) ∧
        after.standing? ⟨0, 1⟩ = some ⟨.aborted, "late"⟩ := by
  intro ended
  obtain ⟨done, cut, hlength, hcut⟩ := cutOff_asked
  obtain ⟨⟨hcursor, -⟩, -, hlabelled, -⟩ := abort_attribution asking_isEachLocal rfl hcut
  obtain ⟨after, hafter, hselected, -⟩ := hlabelled "late"
  obtain ⟨v, hv, haborted⟩ := hselected 1 (commonMember 1 "b") rfl
  cases hv
  rw [hlength] at hcursor haborted
  exact ⟨asking_isEachLocal, ⟨done, cut, hlength, hcut⟩, hcursor, after, hafter, haborted⟩

end Asking

end Conformance.Group
