import Conformance.Proofs.Group.Parts
import Conformance.Proofs.Run.Standing

/-!
Groups that keep to themselves. When the callbacks of a group ask about this group only, a run of
the group finds out nothing about the other groups and changes nothing about them. So it comes to
the same on every engine that has the same group in it, whatever has been done to the others.
-/
namespace Conformance

variable {κ α : Type}

/-- The request is about this group and its checks. Waiting for the end of the run is not. -/
def Request.IsAbout (g : Nat) : Request κ → Prop
  | .checks g' | .cursor g' | .register g' _ => g' = g
  | .status r | .log r | .write r _ _ | .judge r _ => r.group = g
  | .groupNames | .note _ | .sleep _ => True
  | .registered | .history | .abort .. | .stop _ | .interrupt | .pause => False

/-- Nobody is asked to put an end to the run. -/
def Request.isCalm : Request κ → Bool
  | .abort .. | .interrupt => false
  | _ => true

/-- Every callback asks about the group that it is called for, unless it calls for an end of the
run. -/
structure Homely (b : Behaviour κ) : Prop where
  act (callback : κ) (call : Call) :
    (b.act callback call).Only fun op => op.IsAbout call.group ∨ op.isCalm = false
  excuse (callback : κ) (call : Call) :
    (b.excuse callback call).Only fun op => op.IsAbout call.group ∨ op.isCalm = false

namespace Action

/-- The operation has to do with this group and this stop token only. -/
def IsHome (g token : Nat) : Action κ → Prop
  | .request op => op.IsAbout g
  | op => Group.IsPart g token op

def isCalm : Action κ → Bool
  | .request op => op.isCalm
  | _ => true

theorem IsHome.of_part {g token : Nat} {op : Action κ} (h : Group.IsPart g token op) :
    op.IsHome g token := by
  cases op with
  | request op =>
    cases op with
    | checks => exact h
    | status => exact h
    | write => exact h
    | judge => exact h
    | _ => exact absurd h id
  | _ => exact h

end Action

/-- A run of a group has to do with this group only. -/
theorem Homely.only_run {b : Behaviour κ} (hb : Homely b) (g : Nat) (filter : Label.Filter)
    (token : Nat) (handle : Option AbortHandle) :
    (Group.run b g filter token handle).Only fun op => op.IsHome g token ∨ op.isCalm = false := by
  refine Group.Allows.only_run ⟨fun h => .inl (.of_part h), ?_, ?_⟩ filter handle
  · rintro callback call rfl
    exact (hb.act callback call).lift fun op h => h
  · rintro callback call rfl
    exact (hb.excuse callback call).lift fun op h => h

namespace Engine

def names (e : Engine κ) : List String := e.groups.map Group.name

/-- All of a group but the number of its stop token. -/
def view (e : Engine κ) (g : Nat) : Option (Group κ) :=
  (e.group? g).map fun group => { group with token := none }

section Views

variable (e : Engine κ) {g : Nat} {f : Group κ → Group κ}

theorem check?_eq_view (r : CheckRef) :
    e.check? r = (e.view r.group).bind fun group => group.checks[r.index]? := by
  rw [view, Option.bind_map]
  rfl

theorem checksOf_eq_view (g : Nat) : e.checksOf g = (e.view g).elim [] Group.checks := by
  rw [checksOf, view]
  cases e.group? g <;> rfl

theorem names_modifyGroup (g : Nat) (hf : ∀ group, (f group).name = group.name) :
    (e.modifyGroup g f).names = e.names := by
  have hnames (e : Engine κ) (i : Nat) : e.names[i]? = (e.group? i).map Group.name :=
    List.getElem?_map
  refine List.ext_getElem? fun i => ?_
  rw [hnames, hnames, group?_modifyGroup]
  split
  · rw [Option.map_map]
    exact Option.map_congr fun group _ => hf group
  · rfl

theorem view_modifyGroup
    (hf : ∀ group, f { group with token := none } = { f group with token := none }) :
    (e.modifyGroup g f).view g = (e.view g).map f := by
  rw [view, group?_modifyGroup, if_pos rfl, view, Option.map_map, Option.map_map]
  exact Option.map_congr fun group _ => (hf group).symm

end Views

/-- A run of the group with this stop token cannot tell the engines apart. -/
structure Alike (g token : Nat) (e e' : Engine κ) : Prop where
  view : e.view g = e'.view g
  names : e.names = e'.names
  clock : e.clock = e'.clock
  tokenSet : e.tokenSet token = e'.tokenSet token

namespace Alike

variable {g token : Nat} {e e' : Engine κ} (h : Alike g token e e')

include h

theorem check? {r : CheckRef} (hr : r.group = g) : e.check? r = e'.check? r := by
  rw [check?_eq_view, check?_eq_view, hr, h.view]

theorem now : e.now = e'.now := by rw [Engine.now, Engine.now, h.clock]

theorem tick : Alike g token e.tick e'.tick :=
  ⟨h.view, h.names, by rw [Engine.tick, Engine.tick, h.clock], h.tokenSet⟩

theorem modifyGroup {f : Group κ → Group κ} (hname : ∀ group, (f group).name = group.name)
    (hf : ∀ group, f { group with token := none } = { f group with token := none }) :
    Alike g token (e.modifyGroup g f) (e'.modifyGroup g f) where
  view := by rw [view_modifyGroup e hf, view_modifyGroup e' hf, h.view]
  names := by rw [names_modifyGroup e g hname, names_modifyGroup e' g hname, h.names]
  clock := h.clock
  tokenSet := h.tokenSet

theorem modifyCheck {r : CheckRef} (hr : r.group = g) (f : Registered κ → Registered κ) :
    Alike g token (e.modifyCheck r f) (e'.modifyCheck r f) := by
  subst hr
  exact h.modifyGroup (fun _ => rfl) fun _ => rfl

theorem log {r : CheckRef} (hr : r.group = g) (level : LogLevel) (message : String) :
    Alike g token (e.log r level message) (e'.log r level message) := by
  rw [Engine.log, Engine.log, h.now]
  exact (h.modifyCheck hr _).tick

theorem judge {r : CheckRef} (hr : r.group = g) (verdict : Verdict) :
    Alike g token (e.judge r verdict) (e'.judge r verdict) := by
  rw [Engine.judge, Engine.judge, h.check? hr]
  cases e'.check? r with
  | none => exact h
  | some c =>
    simp only
    split
    · exact h.modifyCheck hr _
    · exact (h.modifyCheck hr _).log hr _ _

theorem register (check : Check κ) : Alike g token (e.register g check) (e'.register g check) := by
  have hgroup : (e.group? g).isSome = (e'.group? g).isSome := by
    have hview := congrArg Option.isSome h.view
    rwa [Engine.view, Engine.view, Option.isSome_map, Option.isSome_map] at hview
  have hadded : Alike g token
      (e.modifyGroup g fun group => { group with checks := group.checks ++ [.fresh check] })
      (e'.modifyGroup g fun group => { group with checks := group.checks ++ [.fresh check] }) :=
    h.modifyGroup (fun _ => rfl) fun _ => rfl
  unfold Engine.register
  cases hthere : e.group? g with
  | none =>
    have hnone : e'.group? g = none := by simpa [hthere] using hgroup
    rw [hnone]
    exact h
  | some group =>
    rw [hthere] at hgroup
    obtain ⟨group', hgroup'⟩ := Option.isSome_iff_exists.mp hgroup.symm
    rw [hgroup']
    exact ⟨hadded.view, hadded.names, hadded.clock, hadded.tokenSet⟩

theorem request {op : Request κ} (hop : op.IsAbout g) :
    (op.apply e).1 = (op.apply e').1 ∧ Alike g token (op.apply e).2 (op.apply e').2 := by
  cases op with
  | groupNames => exact ⟨h.names, h⟩
  | checks g' =>
    obtain rfl : g' = g := hop
    refine ⟨?_, h⟩
    simp only [Request.apply, checksOf_eq_view, h.view]
  | cursor g' =>
    obtain rfl : g' = g := hop
    refine ⟨?_, h⟩
    have hcursor (e : Engine κ) :
        (e.group? g').bind Group.cursor = (e.view g').bind Group.cursor := by
      rw [Engine.view, Option.bind_map]
      rfl
    simp only [Request.apply, hcursor, h.view]
  | status r =>
    refine ⟨?_, h⟩
    simp only [Request.apply, h.check? hop]
  | log r =>
    refine ⟨?_, h⟩
    simp only [Request.apply, h.check? hop]
  | note text => exact ⟨rfl, h.view, h.names, h.clock, h.tokenSet⟩
  | write r level message => exact ⟨rfl, h.log hop level message⟩
  | judge r verdict => exact ⟨rfl, h.judge hop verdict⟩
  | register g' check =>
    obtain rfl : g' = g := hop
    exact ⟨rfl, h.register check⟩
  | sleep nanos =>
    refine ⟨rfl, h.view, h.names, ?_, h.tokenSet⟩
    simp only [Request.apply, h.clock]
  | registered => exact absurd hop id
  | history => exact absurd hop id
  | abort => exact absurd hop id
  | stop => exact absurd hop id
  | interrupt => exact absurd hop id
  | pause => exact absurd hop id

/-- An operation about the group is answered in the same way, and leaves the engines alike. -/
theorem apply {op : Action κ} (hop : op.IsHome g token) :
    (op.apply e).1 = (op.apply e').1 ∧ Alike g token (op.apply e).2 (op.apply e').2 := by
  cases op with
  | request op => exact h.request hop
  | enter call => exact ⟨rfl, h.view, h.names, h.clock, h.tokenSet⟩
  | groupName g' =>
    obtain rfl : g' = g := hop
    refine ⟨?_, h⟩
    have hname (e : Engine κ) : (Action.groupName g').apply e =
        ((e.view g').elim "" Group.name, e) := by
      rw [Engine.view, Action.apply]
      cases e.group? g' <;> rfl
    rw [hname, hname, h.view]
  | hooks g' =>
    obtain rfl : g' = g := hop
    refine ⟨?_, h⟩
    have hhooks (e : Engine κ) : (Action.hooks g').apply e =
        ((e.view g').elim .none Group.hooks, e) := by
      rw [Engine.view, Action.apply]
      cases e.group? g' <;> rfl
    rw [hhooks, hhooks, h.view]
  | setCursor g' cursor =>
    obtain rfl : g' = g := hop
    exact ⟨rfl, h.modifyGroup (fun _ => rfl) fun _ => rfl⟩
  | stopped token' =>
    obtain rfl : token' = token := hop
    exact ⟨h.tokenSet, h⟩
  | grant r handle => exact ⟨rfl, h.modifyCheck hop _⟩
  | begin r =>
    refine ⟨h.clock, ?_⟩
    simp only [Action.apply, h.now]
    exact (h.modifyCheck hop _).tick
  | finish r =>
    refine ⟨rfl, ?_⟩
    simp only [Action.apply, h.now]
    exact (h.modifyCheck hop _).tick
  | now => exact ⟨h.clock, h.tick⟩
  | send => exact absurd hop id
  | newToken => exact absurd hop id
  | setToken => exact absurd hop id

/-- A program that asks about the group only comes to the same, and leaves the engines alike. -/
theorem exec {p : Worker κ α} (hp : ∀ a ∈ p.trail Action.apply e, a.1.IsHome g token) :
    (p.exec Action.apply e).1 = (p.exec Action.apply e').1 ∧
      Alike g token (p.exec Action.apply e).2 (p.exec Action.apply e').2 := by
  induction p generalizing e e' with
  | done value => exact ⟨rfl, h⟩
  | panic q => exact ⟨rfl, h⟩
  | ask op next ih =>
    obtain ⟨hop, hrest⟩ := List.forall_mem_cons.mp hp
    obtain ⟨hanswer, hafter⟩ := h.apply hop
    rw [Prog.exec, Prog.exec, ← hanswer]
    exact ih _ hafter hrest

theorem result? {r : CheckRef} (hr : r.group = g) : e.result? r = e'.result? r := by
  rw [Engine.result?, Engine.result?, h.check? hr]

end Alike

/-- Nothing is changed but one group, the clock and the history. -/
structure Leaves (g : Nat) (e e' : Engine κ) : Prop where
  group? {g' : Nat} (h : g' ≠ g) : e'.group? g' = e.group? g'
  names : e'.names = e.names
  tokens : e'.tokens = e.tokens
  inbox : e'.inbox = e.inbox

theorem leaves_isEffect (g : Nat) : Prog.IsEffect (Leaves g : Engine κ → Engine κ → Prop) where
  refl _ := ⟨fun _ => rfl, rfl, rfl, rfl⟩
  trans h h' := ⟨fun hg => (h'.group? hg).trans (h.group? hg), h'.names.trans h.names,
    h'.tokens.trans h.tokens, h'.inbox.trans h.inbox⟩

namespace Leaves

variable {g : Nat} {e e' : Engine κ}

theorem tick (h : Leaves g e e') : Leaves g e e'.tick := ⟨h.group?, h.names, h.tokens, h.inbox⟩

theorem modifyGroup (e : Engine κ) (g : Nat) {f : Group κ → Group κ}
    (hname : ∀ group, (f group).name = group.name) : Leaves g e (e.modifyGroup g f) where
  group? hg := by rw [group?_modifyGroup, if_neg (Ne.symm hg)]
  names := names_modifyGroup e g hname
  tokens := rfl
  inbox := rfl

theorem modifyCheck (e : Engine κ) {r : CheckRef} (hr : r.group = g)
    (f : Registered κ → Registered κ) : Leaves g e (e.modifyCheck r f) := by
  subst hr
  exact modifyGroup e r.group fun _ => rfl

theorem judge (e : Engine κ) {r : CheckRef} (hr : r.group = g) (verdict : Verdict) :
    Leaves g e (e.judge r verdict) := by
  unfold Engine.judge
  cases e.check? r with
  | none => exact (leaves_isEffect g).refl e
  | some c =>
    simp only
    split
    · exact modifyCheck e hr _
    · exact (leaves_isEffect g).trans (modifyCheck e hr _) (modifyCheck _ hr _).tick

theorem register (e : Engine κ) (g : Nat) (check : Check κ) : Leaves g e (e.register g check) := by
  unfold Engine.register
  cases e.group? g with
  | none => exact (leaves_isEffect g).refl e
  | some group =>
    obtain ⟨hgroup, hnames, htokens, hinbox⟩ := modifyGroup e g
      (f := fun group => { group with checks := group.checks ++ [.fresh check] }) fun _ => rfl
    exact ⟨hgroup, hnames, htokens, hinbox⟩

theorem request {op : Request κ} (hop : op.IsAbout g) (e : Engine κ) :
    Leaves g e (op.apply e).2 := by
  cases op with
  | write r level message => exact (modifyCheck e hop _).tick
  | judge r verdict => exact judge e hop verdict
  | register g' check =>
    obtain rfl : g' = g := hop
    exact register e g' check
  | note text => exact ⟨fun _ => rfl, rfl, rfl, rfl⟩
  | sleep nanos => exact ⟨fun _ => rfl, rfl, rfl, rfl⟩
  | registered => exact absurd hop id
  | history => exact absurd hop id
  | abort => exact absurd hop id
  | stop => exact absurd hop id
  | interrupt => exact absurd hop id
  | _ => exact (leaves_isEffect g).refl e

/-- An operation about a group changes nothing about the others. -/
theorem apply {token : Nat} {op : Action κ} (hop : op.IsHome g token) (e : Engine κ) :
    Leaves g e (op.apply e).2 := by
  cases op with
  | request op => exact request hop e
  | enter call => exact ⟨fun _ => rfl, rfl, rfl, rfl⟩
  | setCursor g' cursor =>
    obtain rfl : g' = g := hop
    exact modifyGroup e g' fun _ => rfl
  | grant r handle => exact modifyCheck e hop _
  | begin r => exact (modifyCheck e hop _).tick
  | finish r => exact (modifyCheck e hop _).tick
  | now => exact ((leaves_isEffect g).refl e).tick
  | send => exact absurd hop id
  | newToken => exact absurd hop id
  | setToken => exact absurd hop id
  | _ => exact (leaves_isEffect g).refl e

theorem exec {token : Nat} {p : Worker κ α}
    (hp : ∀ a ∈ p.trail Action.apply e, a.1.IsHome g token) :
    Leaves g e (p.exec Action.apply e).2 := by
  induction p generalizing e with
  | done value => exact (leaves_isEffect g).refl e
  | panic q => exact (leaves_isEffect g).refl e
  | ask op next ih =>
    obtain ⟨hop, hrest⟩ := List.forall_mem_cons.mp hp
    exact (leaves_isEffect g).trans (apply hop e) (ih _ hrest)

theorem view (h : Leaves g e e') {g' : Nat} (hg : g' ≠ g) : e'.view g' = e.view g' := by
  rw [Engine.view, h.group? hg, Engine.view]

theorem result? (h : Leaves g e e') {r : CheckRef} (hr : r.group ≠ g) :
    e'.result? r = e.result? r := by
  rw [Engine.result?, Engine.result?, check?_eq_view, check?_eq_view, h.view hr]

end Leaves

end Engine

end Conformance
