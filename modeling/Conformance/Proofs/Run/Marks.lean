import Conformance.Proofs.Program.Effect
import Conformance.Proofs.Run.Views

/-!
The marks by which a group run and the one who aborts it know of each other: the cursor of a group
and its stop token. Callbacks leave cursors alone. Stop tokens, once set, stay set.
-/
namespace Conformance

variable {κ : Type}

namespace Engine

/-- The place of the check in flight, as an abort reads it. -/
def cursorOf (e : Engine κ) (g : Nat) : Option Nat := (e.group? g).bind Group.cursor

/-- Of the groups, nothing is changed but their checks. -/
def OnlyChecks (e e' : Engine κ) : Prop :=
  ∀ g, ∃ f : Group κ → List (Registered κ),
    e'.group? g = (e.group? g).map fun group => { group with checks := f group }

theorem onlyChecks_isEffect : Prog.IsEffect (OnlyChecks : Engine κ → Engine κ → Prop) where
  refl e g := by
    refine ⟨Group.checks, ?_⟩
    exact Option.map_id'.symm
  trans h h' g := by
    obtain ⟨f, hf⟩ := h g
    obtain ⟨f', hf'⟩ := h' g
    refine ⟨fun group => f' { group with checks := f group }, ?_⟩
    rw [hf', hf, Option.map_map]
    rfl

theorem onlyChecks_of_groups {e e' : Engine κ} (h : e'.groups = e.groups) : e.OnlyChecks e' := by
  intro g
  refine ⟨Group.checks, ?_⟩
  rw [group?, h]
  exact Option.map_id'.symm

theorem onlyChecks_modifyGroup (e : Engine κ) (g : Nat) (f : Group κ → List (Registered κ)) :
    e.OnlyChecks (e.modifyGroup g fun group => { group with checks := f group }) := by
  intro g'
  rw [group?_modifyGroup]
  by_cases hg : g = g'
  · rw [if_pos hg]
    exact ⟨f, rfl⟩
  · rw [if_neg hg]
    exact ⟨Group.checks, Option.map_id'.symm⟩

theorem onlyChecks_modifyCheck (e : Engine κ) (r : CheckRef) (f : Registered κ → Registered κ) :
    e.OnlyChecks (e.modifyCheck r f) :=
  e.onlyChecks_modifyGroup r.group fun group => group.checks.modify r.index f

theorem onlyChecks_log (e : Engine κ) (r : CheckRef) (level : LogLevel) (message : String) :
    e.OnlyChecks (e.log r level message) := e.onlyChecks_modifyCheck r _

theorem onlyChecks_judge (e : Engine κ) (r : CheckRef) (verdict : Verdict) :
    e.OnlyChecks (e.judge r verdict) := by
  unfold judge
  cases e.check? r with
  | none => exact onlyChecks_isEffect.refl e
  | some c =>
    simp only
    split
    · exact e.onlyChecks_modifyCheck r _
    · exact onlyChecks_isEffect.trans (e.onlyChecks_modifyCheck r _) (onlyChecks_log _ r _ _)

theorem onlyChecks_send (e : Engine κ) (run : Nat) (signal : Signal) :
    e.OnlyChecks (e.send run signal) := by
  unfold send
  split
  · exact onlyChecks_of_groups rfl
  · exact onlyChecks_isEffect.refl e

theorem onlyChecks_register (e : Engine κ) (g : Nat) (check : Check κ) :
    e.OnlyChecks (e.register g check) := by
  unfold register
  cases e.group? g with
  | none => exact onlyChecks_isEffect.refl e
  | some group => exact e.onlyChecks_modifyGroup g fun group => group.checks ++ [.fresh check]

theorem OnlyChecks.cursorOf {e e' : Engine κ} (h : e.OnlyChecks e') (g : Nat) :
    e'.cursorOf g = e.cursorOf g := by
  obtain ⟨f, hf⟩ := h g
  rw [Engine.cursorOf, hf, Engine.cursorOf]
  cases e.group? g <;> rfl

theorem OnlyChecks.isSome_group? {e e' : Engine κ} (h : e.OnlyChecks e') (g : Nat) :
    (e'.group? g).isSome = (e.group? g).isSome := by
  obtain ⟨f, hf⟩ := h g
  rw [hf, Option.isSome_map]

theorem isSome_group?_modifyGroup (e : Engine κ) (g : Nat) (f : Group κ → Group κ) (g' : Nat) :
    ((e.modifyGroup g f).group? g').isSome = (e.group? g').isSome := by
  rw [group?_modifyGroup]
  split
  · exact Option.isSome_map
  · rfl

theorem cursorOf_modifyGroup (e : Engine κ) (g : Nat) {f : Group κ → Group κ}
    (hf : ∀ group, (f group).cursor = group.cursor) (g' : Nat) :
    (e.modifyGroup g f).cursorOf g' = e.cursorOf g' := by
  rw [cursorOf, group?_modifyGroup, cursorOf]
  split
  · cases e.group? g' with
    | none => rfl
    | some group => exact hf group
  · rfl

end Engine

theorem Request.onlyChecks_apply (op : Request κ) (e : Engine κ) :
    e.OnlyChecks (op.apply e).2 := by
  cases op with
  | write r level message => exact e.onlyChecks_log r level message
  | judge r verdict => exact e.onlyChecks_judge r verdict
  | abort r reason =>
    simp only [apply]
    split
    · exact Engine.onlyChecks_isEffect.refl e
    · split
      · exact e.onlyChecks_send _ _
      · exact e.onlyChecks_log r _ _
  | stop g =>
    simp only [apply]
    split <;> exact Engine.onlyChecks_of_groups rfl
  | register g check => exact e.onlyChecks_register g check
  | interrupt => exact e.onlyChecks_send _ _
  | _ => exact Engine.onlyChecks_of_groups rfl

namespace Action

theorem isSome_group?_apply (op : Action κ) (e : Engine κ) (g : Nat) :
    ((op.apply e).2.group? g).isSome = (e.group? g).isSome := by
  cases op with
  | request op => exact (op.onlyChecks_apply e).isSome_group? g
  | setCursor g' cursor => exact e.isSome_group?_modifyGroup g' _ g
  | grant r handle => exact e.isSome_group?_modifyGroup r.group _ g
  | begin r => exact e.isSome_group?_modifyGroup r.group _ g
  | finish r => exact e.isSome_group?_modifyGroup r.group _ g
  | send run signal => exact (e.onlyChecks_send run signal).isSome_group? g
  | newToken g' => exact e.isSome_group?_modifyGroup g' _ g
  | _ => rfl

/-- The cursor of a group after an operation. -/
def cursorBy (g : Nat) (cursor : Option Nat) : Action κ → Option Nat
  | setCursor g' cursor' => if g' = g then cursor' else cursor
  | _ => cursor

/-- The operation leaves the cursor of the group alone. -/
def SparesCursor (g : Nat) (op : Action κ) : Prop := ∀ cursor, op.cursorBy g cursor = cursor

theorem cursorOf_apply (op : Action κ) {e : Engine κ} {g : Nat} (hg : (e.group? g).isSome) :
    (op.apply e).2.cursorOf g = op.cursorBy g (e.cursorOf g) := by
  cases op with
  | request op => exact (op.onlyChecks_apply e).cursorOf g
  | setCursor g' cursor =>
    obtain ⟨group, hgroup⟩ := Option.isSome_iff_exists.mp hg
    simp only [apply, cursorBy, Engine.cursorOf, Engine.group?_modifyGroup, hgroup]
    split <;> rfl
  | grant r handle => exact (e.onlyChecks_modifyCheck r _).cursorOf g
  | begin r => exact (e.onlyChecks_modifyCheck r _).cursorOf g
  | finish r => exact (e.onlyChecks_modifyCheck r _).cursorOf g
  | send run signal => exact (e.onlyChecks_send run signal).cursorOf g
  | newToken g' =>
    refine e.cursorOf_modifyGroup g' ?_ g
    intro group
    rfl
  | _ => rfl

end Action

section Tokens

theorem Engine.tokenSet_setToken (e : Engine κ) (token k : Nat) :
    (e.setToken token).tokenSet k = if token = k ∧ k < e.tokens.length then true
      else e.tokenSet k := by
  simp only [tokenSet, setToken, List.getD_eq_getElem?_getD, List.getElem?_set]
  by_cases htoken : token = k
  · by_cases hk : k < e.tokens.length
    · simp [htoken, hk]
    · simp [htoken, hk]
  · simp [htoken]

/-- What sets a stop token, once it has been handed out. -/
def Action.SetsToken (token : Nat) (op : Action κ) : Prop :=
  op = .setToken token ∨ ∃ g, op = .request (.stop g)

/-- A request changes no stop token but where it asks for a stop. -/
theorem Request.tokens_apply (op : Request κ) (e : Engine κ) :
    (op.apply e).2.tokens = e.tokens ∨
      ∃ g token, op = .stop g ∧ (op.apply e).2 = e.setToken token := by
  cases op with
  | judge r verdict =>
    obtain ⟨groups, clock, hjudge⟩ := e.exists_judge_eq r verdict
    refine .inl ?_
    rw [apply, hjudge]
  | abort r reason =>
    refine .inl ?_
    simp only [apply]
    split
    · rfl
    · split
      · unfold Engine.send
        split <;> rfl
      · rfl
  | stop g =>
    simp only [apply]
    split
    · exact .inr ⟨g, _, rfl, rfl⟩
    · exact .inl rfl
  | register g check =>
    refine .inl ?_
    rw [apply, Engine.register]
    cases e.group? g <;> rfl
  | interrupt =>
    refine .inl ?_
    rw [apply, Engine.send]
    split <;> rfl
  | _ => exact .inl rfl

/-- How an operation changes the stop tokens. -/
theorem Action.tokens_apply (op : Action κ) (e : Engine κ) :
    (op.apply e).2.tokens = e.tokens ∨ (op.apply e).2.tokens = e.tokens ++ [false] ∨
      ∃ token, op.SetsToken token ∧ (op.apply e).2.tokens = (e.setToken token).tokens := by
  cases op with
  | request op =>
    rcases op.tokens_apply e with hsame | ⟨g, token, rfl, hset⟩
    · exact .inl hsame
    · exact .inr (.inr ⟨token, .inr ⟨g, rfl⟩, congrArg Engine.tokens hset⟩)
  | newToken g => exact .inr (.inl rfl)
  | setToken token => exact .inr (.inr ⟨token, .inl rfl, rfl⟩)
  | send run signal =>
    refine .inl ?_
    rw [apply, Engine.send]
    split <;> rfl
  | _ => exact .inl rfl

theorem Engine.tokenSet_of_tokens {e e' : Engine κ} (h : e'.tokens = e.tokens) (token : Nat) :
    e'.tokenSet token = e.tokenSet token := by
  rw [tokenSet, h, tokenSet]

theorem Engine.tokenSet_of_append {e e' : Engine κ} (h : e'.tokens = e.tokens ++ [false])
    (token : Nat) : e'.tokenSet token = e.tokenSet token := by
  simp only [tokenSet, h, List.getD_eq_getElem?_getD]
  rcases Nat.lt_or_ge token e.tokens.length with hlt | hge
  · rw [List.getElem?_append_left hlt]
  · rw [List.getElem?_append_right hge, List.getElem?_eq_none hge]
    cases token - e.tokens.length <;> rfl

theorem Action.length_tokens_apply (op : Action κ) (e : Engine κ) :
    e.tokens.length ≤ (op.apply e).2.tokens.length := by
  rcases op.tokens_apply e with h | h | ⟨token, -, h⟩
  · exact Nat.le_of_eq (congrArg List.length h.symm)
  · rw [h, List.length_append]
    exact Nat.le_add_right _ _
  · exact Nat.le_of_eq (by rw [h, Engine.setToken, List.length_set])

/-- A stop token that is set stays so. -/
theorem Action.tokenSet_apply (op : Action κ) {e : Engine κ} {k : Nat}
    (hk : e.tokenSet k = true) : (op.apply e).2.tokenSet k = true := by
  rcases op.tokens_apply e with h | h | ⟨token, -, h⟩
  · rwa [Engine.tokenSet_of_tokens h]
  · rwa [Engine.tokenSet_of_append h]
  · rw [Engine.tokenSet_of_tokens h, Engine.tokenSet_setToken]
    split
    · rfl
    · exact hk

/-- A stop token is set by an operation that is there to set it. -/
theorem Action.tokenSet_of_apply {op : Action κ} {e : Engine κ} {k : Nat}
    (hk : (op.apply e).2.tokenSet k = true) : e.tokenSet k = true ∨ op.SetsToken k := by
  rcases op.tokens_apply e with h | h | ⟨token, hop, h⟩
  · exact .inl (Engine.tokenSet_of_tokens h k ▸ hk)
  · exact .inl (Engine.tokenSet_of_append h k ▸ hk)
  · rw [Engine.tokenSet_of_tokens h, Engine.tokenSet_setToken] at hk
    split at hk
    · rename_i hsame
      exact .inr (hsame.1 ▸ hop)
    · exact .inl hk

end Tokens

end Conformance
