import CrateFold.Proofs.Runs
import Mathlib.Data.List.Count
import Mathlib.Logic.Relation

/-!
The search for live modules step by step. A stage holds what is marked, which modules have been taken out of the queue,
what is left of the visit under way, which entries the round under way has still to look at, and how many rounds were
begun (`Stage`). One step follows a path, takes a module out of the queue, looks at an entry or begins a round (`step`).
The search goes through these stages to its end or its fault (`search_leads`). What was taken out of the queue and what
is in it are the live modules in the order found, and there are no more rounds than modules of the map that became live
(`Orderly`); every step keeps this (`Orderly.step`).
-/
namespace CrateFold

open Marking

namespace Scope

/-! ### The plan of a visit -/

mutual

/-- What a visit of a scope does in order: it follows the paths written in the scope and in the scopes without a name in
it, up to the first of these whose items are not all known. -/
def planFrom (aliases : Aliases) (shadowed : List String) : ScopeOf Item → List (Except Fault Reference)
  | ⟨items, accesses, definesMacros⟩ =>
    let scope : Scope := ⟨items, accesses, definesMacros⟩
    (scope.written (scope.aliases ++ aliases) shadowed).map .ok ++ planIn (scope.aliases ++ aliases) shadowed items
termination_by structural s => s

/-- What a visit of the scopes among items does. -/
def planIn (aliases : Aliases) (shadowed : List String) : List Item → List (Except Fault Reference)
  | [] => []
  | item :: rest => planAt aliases shadowed item ++ planIn aliases shadowed rest
termination_by structural l => l

/-- What a visit of an item that is a scope without a name does. -/
def planAt (aliases : Aliases) (shadowed : List String) : Item → List (Except Fault Reference)
  | .generic _ body =>
    match declaredNames body with
    | .ok names => planFrom aliases (shadowed ++ names) body
    | .error fault => [.error fault]
  | .block body =>
    match declaredNames body with
    | .ok names => planFrom aliases (shadowed ++ names) body
    | .error fault => [.error fault]
  | .module _ _ => []
  | .imports _ => []
  | .type _ => []
  | .file body => [.error (.unknownItem (Item.file body).kind)]
  | .bare text => [.error (.unknownItem (Item.bare text).kind)]
termination_by structural item => item

end

/-- What a visit of a module does in order. -/
def plan (s : Scope) : List (Except Fault Reference) := planFrom [] [] s

end Scope

/-! ### Stages and steps -/

/-- How far the search has come. -/
structure Stage where
  marking : Marking
  /-- The modules taken out of the queue, in order. -/
  taken : List ModulePath := []
  /-- The module taken out last. -/
  module : ModulePath := .crate
  /-- What is left of its visit. -/
  plan : List (Except Fault Reference) := []
  /-- The entries that the round under way has still to look at. -/
  ahead : List (ModulePath × Scope) := []
  /-- Whether a module was marked since the round began, so that another one follows. -/
  changed : Bool := true
  /-- The number of rounds begun. -/
  rounds : Nat := 0

/-- The stage after one more step of the visit under way. -/
def Stage.visiting (s : Stage) (k : Marking) (plan : List (Except Fault Reference)) : Stage :=
  { s with marking := k, plan := plan }

/-- The stage at which the first module of the queue is taken out and its visit begins. -/
def Stage.take (s : Stage) (p : ModulePath) (queue : List ModulePath) (scope : Scope) : Stage :=
  { s with marking := { s.marking with queue := queue }, taken := s.taken ++ [p], module := p, plan := scope.plan }

/-- The stage at which another round over the entries begins. -/
def Stage.again (s : Stage) (entries : List (ModulePath × Scope)) : Stage :=
  { s with ahead := entries, changed := false, rounds := s.rounds + 1 }

namespace ModuleMap

/-- The stage at which the crate root and the modules with macros are marked and nothing is visited. -/
def start (m : ModuleMap) : Except Fault Stage := do
  m.check
  let k ← (Marking.mark {} .crate).outcome
  let k ← (markMacros m.entries k).outcome
  return { marking := k }

/-- One step of the search; none when it has ended. The visit under way goes first, then the queue, then the round. -/
def step (m : ModuleMap) (s : Stage) : Option (Except Fault Stage) :=
  match s.plan, s.marking.queue, s.ahead with
  | .error fault :: _, _, _ => some (.error fault)
  | .ok r :: rest, _, _ =>
    some ((s.visiting · rest) <$> (s.marking.follow m s.module r.aliases r.shadowed r.path).outcome)
  | [], p :: queue, _ =>
    match m.get? p with
    | none => some (.error (.unmapped p))
    | some scope => some (.ok (s.take p queue scope))
  | [], [], (p, scope) :: rest =>
    if s.marking.isLive p then some (.ok { s with ahead := rest })
    else some do
      if ← (m.anchors s.marking p scope).outcome then
        let k ← (s.marking.mark p).outcome
        return { s with marking := k, ahead := rest, changed := true }
      else return { s with ahead := rest }
  | [], [], [] => if s.changed then some (.ok (s.again m.entries)) else none

variable {m : ModuleMap} {s t : Stage} {k next : Marking} {p : ModulePath} {scope : Scope} {r : Reference}

/-- What a step can do: follow a path, take a module out of the queue, pass an entry over, mark the dead module of an
entry, or begin a round after one that marked a module. -/
theorem step_cases (steps : m.step s = some (.ok t)) :
    (∃ (r : Reference) (k : Marking) (plan : List (Except Fault Reference)),
      (s.marking.follow m s.module r.aliases r.shadowed r.path).outcome = .ok k ∧ t = s.visiting k plan) ∨
    (∃ p queue scope, s.marking.queue = p :: queue ∧ t = s.take p queue scope) ∨
    (∃ entry ahead, s.ahead = entry :: ahead ∧ t = { s with ahead := ahead }) ∨
    (∃ p scope ahead k, s.ahead = (p, scope) :: ahead ∧ p ∉ s.marking.live ∧ (s.marking.mark p).outcome = .ok k ∧
      t = { s with marking := k, ahead := ahead, changed := true }) ∨
    (s.changed = true ∧ t = s.again m.entries) := by
  unfold step at steps
  split at steps
  · cases steps
  · next r plan _ =>
    obtain ⟨k, followed, rfl⟩ := map_eq_ok.mp (Option.some.inj steps)
    exact .inl ⟨r, k, plan, followed, rfl⟩
  · next p queue _ first =>
    split at steps
    · cases steps
    · next scope _ =>
      cases steps
      exact .inr (.inl ⟨p, queue, scope, first, rfl⟩)
  · next p scope ahead _ _ under =>
    split at steps
    · cases steps
      exact .inr (.inr (.inl ⟨_, ahead, under, rfl⟩))
    · next dead =>
      obtain ⟨anchored, -, rest⟩ := bind_eq_ok.mp (Option.some.inj steps)
      split at rest
      · obtain ⟨k, marked, same⟩ := bind_eq_ok.mp rest
        cases same
        exact .inr (.inr (.inr (.inl ⟨p, scope, ahead, k, under, by simpa [isLive] using dead, marked, rfl⟩)))
      · cases rest
        exact .inr (.inr (.inl ⟨_, ahead, under, rfl⟩))
  · split at steps
    · next changed =>
      cases steps
      exact .inr (.inr (.inr (.inr ⟨changed, rfl⟩)))
    · cases steps

/-- The search has ended when there is nothing left to do. -/
theorem step_eq_none : m.step s = none ↔ s.plan = [] ∧ s.marking.queue = [] ∧ s.ahead = [] ∧ s.changed = false := by
  constructor
  · intro ended
    unfold step at ended
    split at ended
    · cases ended
    · cases ended
    · split at ended <;> cases ended
    · split at ended <;> cases ended
    · next plan queue ahead =>
      split at ended
      · cases ended
      · next unchanged => exact ⟨plan, queue, ahead, by simpa using unchanged⟩
  · rintro ⟨plan, queue, ahead, unchanged⟩
    simp [step, plan, queue, ahead, unchanged]

/-- The stages that the search comes to from a stage. -/
abbrev Reaches (m : ModuleMap) : Stage → Stage → Prop := Relation.ReflTransGen fun s t => m.step s = some (.ok t)

/-! ### What every step keeps -/

theorem follow_nodup (distinct : k.live.Nodup) (run : (k.follow m p r.aliases r.shadowed r.path).outcome = .ok next) :
    next.live.Nodup := by
  rcases follow_cases run with ⟨-, rfl⟩ | ⟨target, -, run⟩
  · exact distinct
  · obtain ⟨noted, live, -, step⟩ := reach_cases run
    have before : noted.live.Nodup := live ▸ distinct
    rcases step with ⟨-, rfl⟩ | marked
    · exact before
    · exact mark_nodup before marked

theorem markMacros_grows (entries : List (ModulePath × Scope)) (run : (markMacros entries k).outcome = .ok next) :
    k.Grows next ∧ (k.live.Nodup → next.live.Nodup) := by
  induction entries generalizing k with
  | nil =>
    cases run
    exact ⟨grows_refl _, id⟩
  | cons entry rest ih =>
    obtain ⟨path, scope⟩ := entry
    rw [markMacros] at run
    split at run
    · simp only [Traced.outcome_bind, Traced.outcome_record, ok_bind] at run
      obtain ⟨marked, first, run⟩ := bind_eq_ok.mp run
      obtain ⟨grows, distinct⟩ := ih run
      exact ⟨(mark_grows first).1.trans grows, fun before => distinct (mark_nodup before first)⟩
    · exact ih run

/-- How many modules of the map are live. -/
def liveCount (m : ModuleMap) (k : Marking) : Nat := m.keys.countP k.isLive

theorem liveCount_le (m : ModuleMap) (k : Marking) : m.liveCount k ≤ m.keys.length := List.countP_le_length

theorem countP_isLive_mono (grows : k.Grows next) (list : List ModulePath) :
    list.countP k.isLive ≤ list.countP next.isLive := by
  apply List.countP_mono_left
  intro p _ live
  simp only [isLive, List.contains_iff_mem] at live ⊢
  exact grows.live live

/-- A module of the map that becomes live counts. -/
theorem liveCount_lt (grows : k.Grows next) (member : p ∈ m.keys) (dead : p ∉ k.live) (live : p ∈ next.live) :
    m.liveCount k < m.liveCount next := by
  obtain ⟨before, after, split⟩ := List.append_of_mem member
  have first := countP_isLive_mono grows before
  have last := countP_isLive_mono grows after
  rw [liveCount, liveCount, split, List.countP_append, List.countP_append,
    List.countP_cons_of_neg (by simpa [isLive] using dead), List.countP_cons_of_pos (by simpa [isLive] using live)]
  omega

/-- What holds at every stage. The modules taken out of the queue and those in it are the live ones, each once; and
every round but the first came after one that made a module of the map live. -/
structure Orderly (m : ModuleMap) (s : Stage) : Prop where
  split : s.taken ++ s.marking.queue = s.marking.live
  distinct : s.marking.live.Nodup
  listed : s.ahead ⊆ m.entries
  counted : s.rounds + s.changed.toNat ≤ m.liveCount s.marking

theorem split_grows {taken : List ModulePath} (grows : k.Grows next) (split : taken ++ k.queue = k.live) :
    taken ++ next.queue = next.live := by
  obtain ⟨added, live, queue⟩ := grows
  rw [live, queue, ← split, List.append_assoc]

theorem Orderly.step (orderly : m.Orderly s) (steps : m.step s = some (.ok t)) : m.Orderly t := by
  obtain ⟨split, distinct, listed, counted⟩ := orderly
  rcases step_cases steps with ⟨r, k, plan, run, rfl⟩ | ⟨p, queue, scope, first, rfl⟩ | ⟨entry, ahead, under, rfl⟩ |
    ⟨p, scope, ahead, k, under, dead, run, rfl⟩ | ⟨changed, rfl⟩
  · have grows := (follow_grows run).1
    exact ⟨split_grows grows split, follow_nodup distinct run, listed, counted.trans (countP_isLive_mono grows _)⟩
  · refine ⟨?_, distinct, listed, counted⟩
    rw [first] at split
    simpa [Stage.take] using split
  · exact ⟨split, distinct, fun _ later => listed (under ▸ List.mem_cons_of_mem _ later), counted⟩
  · obtain ⟨grows, live⟩ := mark_grows run
    rw [under] at listed
    refine ⟨split_grows grows split, mark_nodup distinct run, fun _ later => listed (List.mem_cons_of_mem _ later), ?_⟩
    have inMap : p ∈ m.keys := mem_keys_of_mem (listed List.mem_cons_self)
    have more := liveCount_lt grows inMap dead live
    simp only [Bool.toNat_true]
    omega
  · refine ⟨split, distinct, List.Subset.refl _, ?_⟩
    simpa [Stage.again, changed] using counted

theorem Orderly.reaches (orderly : m.Orderly s) (reaches : m.Reaches s t) : m.Orderly t := by
  induction reaches with
  | refl => exact orderly
  | tail _ steps ih => exact ih.step steps

/-- The search begins with the crate root live and nothing taken out of the queue. -/
theorem orderly_start (begins : m.start = .ok s) : m.Orderly s := by
  obtain ⟨_, checked, begins⟩ := bind_eq_ok.mp begins
  obtain ⟨first, root, begins⟩ := bind_eq_ok.mp begins
  obtain ⟨second, macros, begins⟩ := bind_eq_ok.mp begins
  cases begins
  obtain ⟨grows, live⟩ := mark_grows root
  obtain ⟨further, distinct⟩ := markMacros_grows m.entries macros
  have inMap : .crate ∈ m.keys := by
    unfold check at checked
    split at checked
    · next there => exact contains_iff.mp there
    · cases checked
  refine ⟨split_grows further (split_grows grows rfl), distinct (mark_nodup List.nodup_nil root), by simp, ?_⟩
  have counts := liveCount_lt (grows.trans further) inMap (by simp) (further.live live)
  simp only [Bool.toNat_true]
  omega

/-! ### The search through its stages -/

section
variable {α β : Type} {expected : α → Stage → Prop} {wanted : β → Stage → Prop}

/-- From a stage the search comes to one as expected of the result, or to its fault. -/
def Leads (m : ModuleMap) (s : Stage) (outcome : Except Fault α) (expected : α → Stage → Prop) : Prop :=
  match outcome with
  | .ok a => ∃ t, m.Reaches s t ∧ expected a t
  | .error fault => ∃ t, m.Reaches s t ∧ m.step t = some (.error fault)

theorem leads_ok {a : α} (here : expected a s) : m.Leads s (.ok a) expected := ⟨s, .refl, here⟩

theorem leads_error {fault : Fault} (fails : m.step s = some (.error fault)) : m.Leads s (.error fault) expected :=
  ⟨s, .refl, fails⟩

theorem leads_step {outcome : Except Fault α} {f : α → Stage} (steps : m.step s = some (f <$> outcome)) :
    m.Leads s outcome fun a t => t = f a := by
  cases outcome with
  | ok a => exact ⟨f a, .single steps, rfl⟩
  | error fault => exact leads_error steps

theorem Leads.after {outcome : Except Fault α} (reaches : m.Reaches s t) (leads : m.Leads t outcome expected) :
    m.Leads s outcome expected := by
  cases outcome with
  | ok a =>
    obtain ⟨u, further, holds⟩ := leads
    exact ⟨u, reaches.trans further, holds⟩
  | error fault =>
    obtain ⟨u, further, fails⟩ := leads
    exact ⟨u, reaches.trans further, fails⟩

theorem Leads.bind {outcome : Except Fault α} {f : α → Except Fault β} (first : m.Leads s outcome expected)
    (next : ∀ a t, m.Reaches s t → expected a t → m.Leads t (f a) wanted) : m.Leads s (outcome >>= f) wanted := by
  cases outcome with
  | ok a =>
    obtain ⟨t, reaches, holds⟩ := first
    exact (next a t reaches holds).after reaches
  | error fault => exact first

theorem Leads.imp {outcome : Except Fault α} {likewise : α → Stage → Prop} (leads : m.Leads s outcome expected)
    (weaker : ∀ a t, expected a t → likewise a t) : m.Leads s outcome likewise := by
  cases outcome with
  | ok a =>
    obtain ⟨t, reaches, holds⟩ := leads
    exact ⟨t, reaches, weaker a t holds⟩
  | error fault => exact leads

end

theorem followAll_leads (s : Stage) (aliases : Aliases) (shadowed : List String) (paths : List ModulePath) (k : Marking)
    (plan : List (Except Fault Reference)) :
    m.Leads (s.visiting k (paths.map (fun path => .ok ⟨aliases, shadowed, path⟩) ++ plan))
      (followAll m s.module aliases shadowed paths k).outcome fun next t => t = s.visiting next plan := by
  induction paths generalizing k with
  | nil => exact leads_ok rfl
  | cons path rest ih =>
    simp only [followAll, Traced.outcome_bind]
    refine (leads_step rfl).bind ?_
    rintro next _ - rfl
    exact ih next

mutual

/-- A visit goes through its plan. -/
theorem visitScope_leads : ∀ (scope : ScopeOf Item) (s : Stage) (aliases : Aliases) (shadowed : List String)
    (k : Marking) (plan : List (Except Fault Reference)),
      m.Leads (s.visiting k (Scope.planFrom aliases shadowed scope ++ plan))
        (visitScope m s.module aliases shadowed scope k).outcome fun next t => t = s.visiting next plan
  | ⟨items, accesses, definesMacros⟩, s, aliases, shadowed, k, plan => by
    simp only [visitScope, Traced.outcome_bind, Scope.planFrom, Scope.written, List.map_append, List.map_map,
      List.append_assoc]
    refine (followAll_leads s [] [] _ k _).bind ?_
    rintro first _ - rfl
    refine (followAll_leads s _ shadowed accesses first _).bind ?_
    rintro second _ - rfl
    exact visitItems_leads items s _ shadowed second plan
termination_by structural scope => scope

theorem visitItems_leads : ∀ (items : List Item) (s : Stage) (aliases : Aliases) (shadowed : List String) (k : Marking)
    (plan : List (Except Fault Reference)),
      m.Leads (s.visiting k (Scope.planIn aliases shadowed items ++ plan))
        (visitItems m s.module aliases shadowed items k).outcome fun next t => t = s.visiting next plan
  | [], _, _, _, _, _ => leads_ok rfl
  | item :: rest, s, aliases, shadowed, k, plan => by
    simp only [visitItems, Traced.outcome_bind, Scope.planIn, List.append_assoc]
    refine (visitItem_leads item s aliases shadowed k _).bind ?_
    rintro next _ - rfl
    exact visitItems_leads rest s aliases shadowed next plan
termination_by structural items => items

theorem visitItem_leads : ∀ (item : Item) (s : Stage) (aliases : Aliases) (shadowed : List String) (k : Marking)
    (plan : List (Except Fault Reference)),
      m.Leads (s.visiting k (Scope.planAt aliases shadowed item ++ plan))
        (visitItem m s.module aliases shadowed item k).outcome fun next t => t = s.visiting next plan
  | .generic _ body, s, aliases, shadowed, k, plan => by
    simp only [visitItem, Scope.planAt, Traced.outcome_bind, Traced.outcome_lift]
    cases Scope.declaredNames body with
    | ok names => exact visitScope_leads body s aliases (shadowed ++ names) k plan
    | error fault => exact leads_error rfl
  | .block body, s, aliases, shadowed, k, plan => by
    simp only [visitItem, Scope.planAt, Traced.outcome_bind, Traced.outcome_lift]
    cases Scope.declaredNames body with
    | ok names => exact visitScope_leads body s aliases (shadowed ++ names) k plan
    | error fault => exact leads_error rfl
  | .module _ _, _, _, _, _, _ => leads_ok rfl
  | .imports _, _, _, _, _, _ => leads_ok rfl
  | .type _, _, _, _, _, _ => leads_ok rfl
  | .file _, _, _, _, _, _ => leads_error rfl
  | .bare _, _, _, _, _, _ => leads_error rfl
termination_by structural item => item

end

/-- The entries whose modules have not been taken out of the queue. -/
def untaken (m : ModuleMap) (taken : List ModulePath) : List (ModulePath × Scope) :=
  m.entries.filter fun entry => !taken.contains entry.1

/-- A module that was not taken out is found among these entries if it is in the map. -/
theorem find?_untaken {taken : List ModulePath} (waits : p ∉ taken) :
    (m.untaken taken).find? (·.1 == p) = (m.get? p).map (p, ·) := by
  unfold untaken get?
  rw [List.find?_filter]
  induction m.entries with
  | nil => rfl
  | cons entry rest ih =>
    obtain ⟨key, scope⟩ := entry
    rw [List.find?_cons, List.lookup_cons, ih]
    by_cases here : key = p
    · subst here
      simp [waits]
    · simp [here, beq_false_of_ne (Ne.symm here)]

theorem eraseP_untaken (distinct : m.keys.Nodup) (taken : List ModulePath) :
    (m.untaken taken).eraseP (·.1 == p) = m.untaken (taken ++ [p]) := by
  rw [untaken, eraseP_key (distinct.sublist (List.filter_sublist.map Prod.fst)), untaken, List.filter_filter]
  refine List.filter_congr fun entry _ => ?_
  rw [Bool.eq_iff_iff]
  simp [and_comm]

theorem untaken_shorter (distinct : m.keys.Nodup) {taken : List ModulePath} (waits : p ∉ taken)
    (found : m.get? p = some scope) : (m.untaken (taken ++ [p])).length < (m.untaken taken).length := by
  have first := find?_untaken (m := m) waits
  rw [found, Option.map_some] at first
  have member := List.mem_of_find?_eq_some first
  rw [← eraseP_untaken distinct, List.length_eraseP_of_mem member (List.find?_some first)]
  have := List.length_pos_of_mem member
  omega

/-- Emptying the queue takes its modules out one after the other. -/
theorem drain_leads (distinct : m.keys.Nodup) (s : Stage) (orderly : m.Orderly s) (idle : s.plan = []) :
    m.Leads s (s.marking.drain m (m.untaken s.taken)).outcome fun result t =>
      ∃ taken module, t = { s with marking := result.1, taken := taken, module := module } ∧ result.1.queue = [] ∧
        result.2 = m.untaken taken ∧ result.2.length ≤ (m.untaken s.taken).length ∧
        (s.marking.queue ≠ [] → result.2.length < (m.untaken s.taken).length) := by
  rw [drain]
  split
  · next empty => exact leads_ok ⟨s.taken, s.module, rfl, empty, rfl, le_refl _, fun some => absurd empty some⟩
  · next p queue first =>
    -- a module that was taken out would stand twice among the live ones
    have waits : p ∉ s.taken := by
      intro again
      have apart := (List.nodup_append.mp (orderly.split ▸ orderly.distinct)).2.2
      exact apart p again p (by simp [first]) rfl
    have found := find?_untaken (m := m) waits
    split
    · next missing =>
      rw [missing] at found
      have absent : m.get? p = none := by simpa using found.symm
      exact leads_error (by simp [step, idle, first, absent])
    · next entry listed =>
      rw [listed] at found
      obtain ⟨scope, inMap, same⟩ := Option.map_eq_some_iff.mp found.symm
      subst same
      have taking : m.step s = some (.ok (s.take p queue scope)) := by simp [step, idle, first, inMap]
      have fewer := untaken_shorter distinct waits inMap
      have visit := visitScope_leads (m := m) scope (s.take p queue scope) [] [] (s.take p queue scope).marking []
      rw [List.append_nil] at visit
      simp only [Traced.outcome_bind]
      refine Leads.after (.single taking) (visit.bind ?_)
      rintro next _ reaches rfl
      rw [eraseP_untaken distinct]
      refine (drain_leads distinct _ ((orderly.step taking).reaches reaches) rfl).imp ?_
      rintro result _ ⟨taken, module, rfl, empty, left, shorter, -⟩
      refine ⟨taken, module, ?_, empty, left, ?_, fun _ => ?_⟩
      · rw [idle]
        rfl
      · exact shorter.trans fewer.le
      · exact shorter.trans_lt fewer
termination_by (m.untaken s.taken).length

/-- A round looks at its entries one after the other. It marks a module exactly if it takes one out of the queue. -/
theorem round_leads (distinct : m.keys.Nodup) (entries : List (ModulePath × Scope)) (s : Stage) (orderly : m.Orderly s)
    (idle : s.plan = []) (empty : s.marking.queue = []) (under : s.ahead = entries) :
    m.Leads s (m.round entries s.marking (m.untaken s.taken)).outcome fun result t =>
      ∃ taken module changed, t = { s with
          marking := result.1, taken := taken, module := module, ahead := [], changed := changed } ∧
        result.1.queue = [] ∧ result.2 = m.untaken taken ∧ result.2.length ≤ (m.untaken s.taken).length ∧
        (changed = true ↔ s.changed = true ∨ result.2.length < (m.untaken s.taken).length) := by
  induction entries generalizing s with
  | nil =>
    refine leads_ok ⟨s.taken, s.module, s.changed, ?_, empty, rfl, le_refl _, by simp⟩
    rw [← under]
  | cons entry rest ih =>
    obtain ⟨path, scope⟩ := entry
    rw [round]
    by_cases old : s.marking.isLive path = true
    · have passes : m.step s = some (.ok { s with ahead := rest }) := by simp [step, idle, empty, under, old]
      rw [if_pos old]
      exact (ih _ (orderly.step passes) idle empty rfl).after (.single passes)
    · have looks : m.step s = some (do
          if ← (m.anchors s.marking path scope).outcome then
            let k ← (s.marking.mark path).outcome
            return { s with marking := k, ahead := rest, changed := true }
          else return { s with ahead := rest }) := by
        simp [step, idle, empty, under, old]
      rw [if_neg old]
      simp only [Traced.outcome_bind]
      cases anchored : (m.anchors s.marking path scope).outcome with
      | error fault =>
        rw [anchored] at looks
        exact leads_error looks
      | ok holds =>
        rw [anchored, ok_bind] at looks
        rw [ok_bind]
        cases holds with
        | false => exact (ih _ (orderly.step looks) idle empty rfl).after (.single looks)
        | true =>
          obtain ⟨k, marked⟩ : ∃ k, (s.marking.mark path).outcome = .ok k := ⟨_, mark_outcome s.marking path⟩
          obtain ⟨⟨added, live, queue⟩, member⟩ := mark_grows marked
          -- the module was dead, so it is in the queue now and the round visits it
          have queued : k.queue ≠ [] := by
            rw [queue, empty, List.nil_append]
            rintro rfl
            rw [live, List.append_nil] at member
            exact old (by simpa [isLive] using member)
          simp only [if_true, marked, ok_bind] at looks
          simp only [if_true, Traced.outcome_bind, Traced.outcome_record, marked, ok_bind]
          refine Leads.after (.single looks) ((drain_leads distinct _ (orderly.step looks) idle).bind ?_)
          rintro ⟨next, left⟩ _ reaches ⟨taken, module, rfl, done, rfl, -, fewer⟩
          have shorter := fewer queued
          refine (ih _ ((orderly.step looks).reaches reaches) idle done rfl).imp ?_
          rintro result _ ⟨taken', module', changed, rfl, done', left', shorter', again⟩
          refine ⟨taken', module', changed, rfl, done', left', shorter'.trans shorter.le, ?_⟩
          -- what this entry changes, later ones do not take back
          have marks : changed = true := again.mpr (.inl rfl)
          simp [marks, shorter'.trans_lt shorter]

/-- Rounds follow each other until one marks nothing, and then the search has ended. -/
theorem rounds_leads (distinct : m.keys.Nodup) (s : Stage) (orderly : m.Orderly s) (idle : s.plan = [])
    (empty : s.marking.queue = []) (spent : s.ahead = []) (changed : s.changed = true) :
    m.Leads s (m.rounds s.marking (m.untaken s.taken)).outcome fun k t => t.marking = k ∧ m.step t = none := by
  have begins : m.step s = some (.ok (s.again m.entries)) := by simp [step, idle, empty, spent, changed]
  rw [rounds]
  simp only [Traced.outcome_bind]
  refine Leads.after (.single begins) ((round_leads distinct m.entries _ (orderly.step begins) idle empty rfl).bind ?_)
  rintro ⟨next, left⟩ _ reaches ⟨taken, module, marked, rfl, done, rfl, -, again⟩
  have fewer : marked = true ↔ (m.untaken taken).length < (m.untaken s.taken).length := by
    simpa [Stage.again] using again
  by_cases shorter : (m.untaken taken).length < (m.untaken s.taken).length
  · simp only [shorter, if_true]
    exact rounds_leads distinct _ ((orderly.step begins).reaches reaches) idle done rfl (fewer.mpr shorter)
  · have unchanged : marked = false := by simpa [shorter] using fewer
    simp only [shorter, if_false]
    exact leads_ok ⟨rfl, step_eq_none.mpr ⟨idle, done, rfl, unchanged⟩⟩
termination_by (m.untaken s.taken).length

/-- The search goes from its start to its end. -/
theorem search_leads (distinct : m.keys.Nodup) (begins : m.start = .ok s) :
    m.Leads s m.search.outcome fun k t => t.marking = k ∧ m.step t = none := by
  have orderly := orderly_start begins
  obtain ⟨_, checked, begins⟩ := bind_eq_ok.mp begins
  obtain ⟨first, root, begins⟩ := bind_eq_ok.mp begins
  obtain ⟨second, macros, begins⟩ := bind_eq_ok.mp begins
  cases begins
  have all : m.entries = m.untaken [] := by simp [untaken]
  simp only [search, Traced.outcome_bind, Traced.outcome_lift, checked, root, macros, ok_bind]
  rw [all]
  refine (drain_leads distinct _ orderly rfl).bind ?_
  rintro ⟨next, left⟩ _ reaches ⟨taken, module, rfl, done, rfl, -, -⟩
  exact rounds_leads distinct _ (orderly.reaches reaches) rfl done rfl rfl

/-- A search that does not begin fails as its start does. -/
theorem search_refused {fault : Fault} (fails : m.start = .error fault) : m.search.outcome = .error fault := by
  rw [start] at fails
  simp only [search, Traced.outcome_bind, Traced.outcome_lift]
  rcases bind_eq_error.mp fails with checked | ⟨_, checked, fails⟩
  · rw [checked, error_bind]
  · rw [mark_outcome, ok_bind] at fails
    rcases bind_eq_error.mp fails with macros | ⟨_, -, fails⟩
    · rw [checked, mark_outcome, ok_bind, ok_bind, macros, error_bind]
    · cases fails

/-- A stage without a next one comes after every stage that the search comes to. -/
theorem Reaches.last {start last : Stage} (reaches : m.Reaches start last) (ends : ∀ t, m.step last ≠ some (.ok t))
    (comes : m.Reaches start s) : m.Reaches s last := by
  have alone : Relator.RightUnique fun s t => m.step s = some (.ok t) := by
    intro s t u one other
    exact Except.ok.inj (Option.some.inj (one.symm.trans other))
  rcases Relation.ReflTransGen.total_of_right_unique alone reaches comes with after | before
  · rcases after.cases_head with rfl | ⟨t, steps, -⟩
    · exact .refl
    · exact absurd steps (ends t)
  · exact before

/-- The search ends and visits each module once. It fails before it begins, or all its stages come to the same last one,
which is its end or its fault. At every stage the modules that were put into the queue so far, whether taken out or not,
are different from each other, and no more rounds were begun than the map has modules. At the end the modules taken out
of the queue and visited are those that are live. -/
theorem liveness_steps (distinct : m.keys.Nodup) :
    (∀ fault, m.start = .error fault → m.liveness.outcome = .error fault) ∧
    ∀ start, m.start = .ok start →
      (∃ last, (∀ s, m.Reaches start s → m.Reaches s last) ∧
        (m.step last = none ∧ m.liveness.outcome = .ok ⟨last.marking.live, last.marking.declarations⟩ ∨
          ∃ fault, m.step last = some (.error fault) ∧ m.liveness.outcome = .error fault)) ∧
      ∀ s, m.Reaches start s → (s.taken ++ s.marking.queue).Nodup ∧ s.rounds ≤ m.keys.length ∧
        (m.step s = none → s.taken = s.marking.live) := by
  refine ⟨?_, ?_⟩
  · intro fault fails
    simp only [liveness, Traced.outcome_bind, search_refused fails, error_bind]
  · intro start begins
    have orderly := orderly_start begins
    refine ⟨?_, ?_⟩
    · have leads := search_leads distinct begins
      simp only [liveness, Traced.outcome_bind, Traced.outcome_record, Traced.outcome_pure]
      cases searches : m.search.outcome with
      | ok k =>
        rw [searches] at leads
        obtain ⟨last, reaches, rfl, ends⟩ := leads
        exact ⟨last, fun s comes => reaches.last (by simp [ends]) comes, .inl ⟨ends, rfl⟩⟩
      | error fault =>
        rw [searches] at leads
        obtain ⟨last, reaches, fails⟩ := leads
        exact ⟨last, fun s comes => reaches.last (by simp [fails]) comes, .inr ⟨fault, fails, rfl⟩⟩
    · intro s reaches
      have here := orderly.reaches reaches
      refine ⟨here.split ▸ here.distinct, ?_, ?_⟩
      · have bound := liveCount_le m s.marking
        have counted := here.counted
        omega
      · intro ends
        have split := here.split
        rwa [(step_eq_none.mp ends).2.1, List.append_nil] at split

theorem sample_steps : sample.keys.Nodup ∧ ∃ start last, sample.start = .ok start ∧ sample.Reaches start last ∧
    sample.step last = none ∧ last.rounds ≤ 7 ∧
    last.taken = [⟨["crate"]⟩, ⟨["crate", "c"]⟩, ⟨["crate", "c", "m"]⟩, ⟨["crate", "a"]⟩, ⟨["crate", "b"]⟩,
      ⟨["crate", "d"]⟩] := by
  have distinct : sample.keys.Nodup := by decide
  have found : sample.liveness.outcome = .ok ⟨[⟨["crate"]⟩, ⟨["crate", "c"]⟩, ⟨["crate", "c", "m"]⟩,
      ⟨["crate", "a"]⟩, ⟨["crate", "b"]⟩, ⟨["crate", "d"]⟩],
      [⟨["crate", "a", "f"]⟩, ⟨["crate", "a", "T"]⟩]⟩ := by decide +kernel
  obtain ⟨fails, runs⟩ := liveness_steps distinct
  cases begins : sample.start with
  | error fault =>
    have failed := fails fault begins
    rw [found] at failed
    cases failed
  | ok start =>
    obtain ⟨⟨last, comes, ends⟩, each⟩ := runs start begins
    have reaches := comes start .refl
    rcases ends with ⟨ends, same⟩ | ⟨fault, -, failed⟩
    · rw [found] at same
      obtain ⟨-, few, taken⟩ := each last reaches
      refine ⟨distinct, start, last, rfl, reaches, ends, few, (taken ends).trans ?_⟩
      exact (Liveness.mk.inj (Except.ok.inj same)).1.symm
    · rw [found] at failed
      cases failed

end ModuleMap

end CrateFold
