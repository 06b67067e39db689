import CrateFold.Proofs.Marking
import Mathlib.Order.Bounds.Defs

/-!
The live modules of a rooted map are the least set of modules closed under the rules of use (`Closed`).
The search interleaves a queue, the marking of enclosing modules, the modules with macros and repeated
rounds over the dead modules; one invariant (`Inv`) carries all of them. An entry waits exactly as long as
its module is dead or in the queue, so an empty queue means that every live module has been visited.
-/
namespace CrateFold

namespace ModuleMap

/-- A module holds an `impl` block, directly in it, with an access that leads to a module of the set: the
access is resolved through the imports of the module, and the block's own names are shadowed. -/
def Anchored (m : ModuleMap) (modules : Set ModulePath) (entry : ModulePath × Scope) : Prop :=
  ∃ body, .generic none body ∈ entry.2.items ∧ ∃ access ∈ body.accesses, ∃ target,
    m.LeadsTo entry.1 ⟨entry.2.aliases, Scope.names body, access⟩ target ∧ m.owner target ∈ modules

/-- The rules of use: what is in use keeps in use what it lies in and what it refers to. -/
structure Closed (m : ModuleMap) (modules : Set ModulePath) : Prop where
  root : .crate ∈ modules
  macros : ∀ entry ∈ m.entries, entry.2.definesMacros = true → entry.1 ∈ modules
  ancestors : ∀ p ∈ modules, ∀ q, p.Within q → q ∈ modules
  references : ∀ entry ∈ m.entries, entry.1 ∈ modules → ∀ r ∈ entry.2.references, ∀ target,
    m.LeadsTo entry.1 r target → m.owner target ∈ modules
  anchors : ∀ entry ∈ m.entries, m.Anchored modules entry → entry.1 ∈ modules

/-- A module of the map refers to a declaration. -/
def Names (m : ModuleMap) (entry : ModulePath × Scope) (d : ModulePath) : Prop :=
  ∃ r ∈ entry.2.references, ∃ target, m.LeadsTo entry.1 r target ∧ m.named? target = some d

end ModuleMap

open ModuleMap

variable {m : ModuleMap} {k : Marking} {p : ModulePath} {waiting : List (ModulePath × Scope)}

namespace Marking

/-- What holds between the steps of the search. -/
structure Inv (m : ModuleMap) (k : Marking) (waiting : List (ModulePath × Scope)) : Prop where
  fits : k.Fits m
  listed : waiting.Sublist m.entries
  waits : ∀ entry ∈ m.entries, entry ∈ waiting ↔ entry.1 ∉ k.live ∨ entry.1 ∈ k.queue
  reached : ∀ entry ∈ m.entries, entry ∉ waiting → ∀ r ∈ entry.2.references, ∀ target,
    m.LeadsTo entry.1 r target → m.owner target ∈ k.live
  least : ∀ modules, m.Closed modules → ∀ p ∈ k.live, p ∈ modules
  named : ∀ d, d ∈ k.declarations ↔ ∃ entry ∈ m.entries, entry ∉ waiting ∧ m.Names entry d

theorem inv_start (m : ModuleMap) : Inv m {} m.entries := by
  refine ⟨⟨?_, ?_, ?_, ?_⟩, List.Sublist.refl _, ?_, ?_, ?_, ?_⟩
  · simp
  · simp [Rising]
  · simp
  · simp
  · simp
  · intro entry member late
    exact absurd member late
  · simp
  · intro d
    simp only [List.not_mem_nil, false_iff]
    rintro ⟨entry, member, late, -⟩
    exact late member

/-- What becomes live goes into the queue, so being dead or in the queue stays as it was. -/
theorem Grows.waits {next : Marking} (grows : k.Grows next) (distinct : next.live.Nodup) :
    p ∉ next.live ∨ p ∈ next.queue ↔ p ∉ k.live ∨ p ∈ k.queue := by
  obtain ⟨added, live, queue⟩ := grows
  have apart := (List.nodup_append.mp (live ▸ distinct)).2.2
  rw [live, queue]
  constructor
  · rintro (dead | queued)
    · exact .inl fun old => dead (List.mem_append_left _ old)
    · rcases List.mem_append.mp queued with old | new
      · exact .inr old
      · exact .inl fun old => apart _ old _ new rfl
  · rintro (dead | queued)
    · by_cases new : p ∈ added
      · exact .inr (List.mem_append_right _ new)
      · exact .inl (by simp [dead, new])
    · exact .inr (List.mem_append_left _ queued)

/-- Marking a module that every closed set holds keeps the invariant: what becomes live goes into the
queue, so nothing waits less. -/
theorem Inv.mark (rooted : m.Rooted) (inv : Inv m k waiting) (member : p ∈ m.keys)
    (needed : ∀ modules, m.Closed modules → p ∈ modules) :
    ∃ next, (k.mark p).outcome = .ok next ∧ Inv m next waiting ∧ k.Grows next ∧ p ∈ next.live := by
  obtain ⟨next, marked, fits, grows, live, declarations, reason⟩ := mark_spec rooted inv.fits member
  refine ⟨next, marked, ⟨fits, inv.listed, ?_, ?_, ?_, ?_⟩, grows, live⟩
  · intro entry inMap
    rw [inv.waits entry inMap, grows.waits fits.distinct]
  · intro entry inMap done r member target leads
    exact grows.live (inv.reached entry inMap done r member target leads)
  · intro modules closed q member
    rcases reason q member with old | lies
    · exact inv.least modules closed q old
    · exact closed.ancestors p (needed modules closed) q lies
  · intro d
    rw [declarations, inv.named]

/-! ### Emptying the queue -/

/-- Erasing the entry of a key leaves those of the other keys. -/
theorem eraseP_key {entries : List (ModulePath × Scope)} (distinct : (entries.map Prod.fst).Nodup) :
    entries.eraseP (·.1 == p) = entries.filter (·.1 != p) := by
  induction entries with
  | nil => rfl
  | cons first rest ih =>
    simp only [List.map_cons, List.nodup_cons] at distinct
    by_cases same : first.1 = p
    · rw [List.eraseP_cons_of_pos (by simpa using same), List.filter_cons_of_neg (by simpa using same), eq_comm,
        List.filter_eq_self]
      intro entry later
      have other : entry.1 ≠ p := by
        intro again
        exact distinct.1 (List.mem_map.mpr ⟨entry, later, again.trans same.symm⟩)
      simpa using other
    · rw [List.eraseP_cons_of_neg (by simpa using same), List.filter_cons_of_pos (by simpa using same), ih distinct.2]

theorem mem_eraseP_key {entries : List (ModulePath × Scope)} (distinct : (entries.map Prod.fst).Nodup)
    {entry : ModulePath × Scope} :
    entry ∈ entries.eraseP (·.1 == p) ↔ entry ∈ entries ∧ entry.1 ≠ p := by
  rw [eraseP_key distinct, List.mem_filter, bne_iff_ne]

theorem Inv.distinct (rooted : m.Rooted) (inv : Inv m k waiting) : (waiting.map Prod.fst).Nodup :=
  rooted.distinct.sublist (inv.listed.map Prod.fst)

/-- The entry of the first module in the queue is the one that is found waiting. -/
theorem Inv.next (inv : Inv m k waiting) {queue : List ModulePath} (first : k.queue = p :: queue) :
    ∃ scope, waiting.find? (·.1 == p) = some (p, scope) ∧ (p, scope) ∈ waiting ∧ (p, scope) ∈ m.entries := by
  have queued : p ∈ k.queue := by simp [first]
  obtain ⟨scope, entry⟩ := mem_keys.mp (inv.fits.keys p (inv.fits.queued.subset queued))
  have waits : (p, scope) ∈ waiting := (inv.waits _ entry).mpr (.inr queued)
  have some : (waiting.find? (·.1 == p)).isSome = true := List.find?_isSome.mpr ⟨(p, scope), waits, by simp⟩
  obtain ⟨⟨other, body⟩, found⟩ := Option.isSome_iff_exists.mp some
  have same : other = p := by simpa using List.find?_some found
  subst same
  have member := List.mem_of_find?_eq_some found
  exact ⟨body, found, member, inv.listed.subset member⟩

/-- Visiting the first module in the queue keeps the invariant, and its entry waits no longer. -/
theorem Inv.visit (rooted : m.Rooted) (inv : Inv m k waiting) {queue : List ModulePath} (first : k.queue = p :: queue)
    {scope : Scope} (entry : (p, scope) ∈ m.entries) :
    ∃ next, (visitScope m p [] [] scope { k with queue := queue }).outcome = .ok next ∧
      Inv m next (waiting.eraseP (·.1 == p)) ∧ ∀ q ∈ k.live, q ∈ next.live := by
  have queued : p ∈ k.queue := by simp [first]
  have live : p ∈ k.live := inv.fits.queued.subset queued
  have shorter : ({ k with queue := queue } : Marking).Fits m :=
    ⟨inv.fits.keys, inv.fits.ancestors, inv.fits.distinct,
      (List.sublist_cons_self p queue).trans (first ▸ inv.fits.queued)⟩
  obtain ⟨next, visited, follows⟩ := visit_spec rooted entry shorter
  have once : p ∉ queue := (List.nodup_cons.mp (first ▸ inv.fits.distinct.sublist inv.fits.queued)).1
  have left : ∀ e : ModulePath × Scope, e ∈ waiting.eraseP (·.1 == p) ↔ e ∈ waiting ∧ e.1 ≠ p :=
    fun _ => mem_eraseP_key (inv.distinct rooted)
  have others : ∀ e ∈ m.entries, e ∉ waiting.eraseP (·.1 == p) → e ∉ waiting ∨ e = (p, scope) := by
    intro e inMap done
    rw [left] at done
    by_cases waits : e ∈ waiting
    · have same : e.1 = p := by
        by_contra other
        exact done ⟨waits, other⟩
      have found : m.get? p = some e.2 := rooted.get? (same ▸ inMap)
      rw [rooted.get? entry] at found
      exact .inr (Prod.ext same (Option.some.inj found).symm)
    · exact .inl waits
  refine ⟨next, visited, ⟨follows.fits, List.eraseP_sublist.trans inv.listed, ?_, ?_, ?_, ?_⟩,
    fun q old => follows.grows.live old⟩
  · intro e inMap
    rw [left, inv.waits e inMap, follows.grows.waits follows.fits.distinct, first, List.mem_cons]
    constructor
    · rintro ⟨dead | rfl | queued, other⟩
      · exact .inl dead
      · exact absurd rfl other
      · exact .inr queued
    · rintro (dead | queued)
      · exact ⟨.inl dead, fun same => dead (same ▸ live)⟩
      · exact ⟨.inr (.inr queued), fun same => once (same ▸ queued)⟩
  · intro e inMap done r member target leads
    rcases others e inMap done with before | rfl
    · exact follows.grows.live (inv.reached e inMap before r member target leads)
    · exact follows.reached r member target leads
  · intro modules closed q member
    have inside := inv.least modules closed p live
    rcases follows.reason q member with old | ⟨r, written, target, leads, lies⟩
    · exact inv.least modules closed q old
    · exact closed.ancestors _ (closed.references _ entry inside r written target leads) q lies
  · intro d
    rw [follows.named d]
    change d ∈ k.declarations ∨ m.Names (p, scope) d ↔ _
    rw [inv.named]
    constructor
    · rintro (⟨e, inMap, done, names⟩ | names)
      · exact ⟨e, inMap, fun member => done ((left e).mp member).1, names⟩
      · exact ⟨(p, scope), entry, fun member => ((left _).mp member).2 rfl, names⟩
    · rintro ⟨e, inMap, done, names⟩
      rcases others e inMap done with before | rfl
      · exact .inl ⟨e, inMap, before, names⟩
      · exact .inr names

/-- The queue of a rooted map is emptied. If there was a module in it, fewer entries wait afterwards. -/
theorem drain_total (rooted : m.Rooted) (k : Marking) (waiting : List (ModulePath × Scope)) (inv : Inv m k waiting) :
    ∃ next left, (k.drain m waiting).outcome = .ok (next, left) ∧ Inv m next left ∧ next.queue = [] ∧
      (∀ q ∈ k.live, q ∈ next.live) ∧ left.length ≤ waiting.length ∧
        (k.queue ≠ [] → left.length < waiting.length) := by
  rw [drain]
  cases first : k.queue with
  | nil => exact ⟨k, waiting, by simp, inv, first, fun _ live => live, le_refl _, by simp⟩
  | cons p queue =>
    obtain ⟨scope, found, member, entry⟩ := inv.next first
    obtain ⟨visited, run, after, kept⟩ := inv.visit rooted first entry
    have fewer : (waiting.eraseP (·.1 == p)).length < waiting.length := by
      rw [List.length_eraseP_of_mem member (by simp)]
      have := List.length_pos_of_mem member
      omega
    obtain ⟨next, left, rest, last, empty, grown, shorter, -⟩ := drain_total rooted visited _ after
    refine ⟨next, left, ?_, last, empty, fun q live => grown q (kept q live), by omega, fun _ => by omega⟩
    simp only
    split
    · next none => simp [found] at none
    · next other same =>
      rw [found] at same
      cases same
      simp [run, rest]
termination_by waiting.length

end Marking

open Marking

namespace ModuleMap

/-! ### Anchors -/

theorem anyLive_spec (rooted : m.Rooted) (member : p ∈ m.keys) {aliases : Aliases}
    (bound : Scope.Bound aliases) (shadowed : List String) (accesses : List ModulePath) :
    ∃ found, (m.anyLive k p aliases shadowed accesses).outcome = .ok found ∧ (found = true ↔
      ∃ access ∈ accesses, ∃ target, m.LeadsTo p ⟨aliases, shadowed, access⟩ target ∧ m.owner target ∈ k.live) := by
  induction accesses with
  | nil => exact ⟨false, by simp [anyLive], by simp⟩
  | cons access rest ih =>
    obtain ⟨later, run, meaning⟩ := ih
    obtain ⟨answer, resolved, -⟩ := rooted.answer_total member (r := ⟨aliases, shadowed, access⟩) bound
    have outcome : (m.resolve p aliases shadowed access).outcome = .ok answer := resolved
    have leads : ∀ target, m.LeadsTo p ⟨aliases, shadowed, access⟩ target ↔ answer = some target := by
      intro target
      simp [LeadsTo, resolved]
    simp only [List.mem_cons, exists_eq_or_imp, leads, ← meaning]
    cases answer with
    | none => exact ⟨later, by simp [anyLive, outcome, run], by simp⟩
    | some target =>
      by_cases live : m.owner target ∈ k.live
      · exact ⟨true, by simp [anyLive, outcome, isLive, live], by simp [live]⟩
      · exact ⟨later, by simp [anyLive, outcome, isLive, live, run], by simp [live]⟩

theorem anchorsIn_spec (rooted : m.Rooted) (member : p ∈ m.keys) {aliases : Aliases} (bound : Scope.Bound aliases)
    {items : List Item} (fine : Scope.everywhereIn Scope.known items = true) :
    ∃ found, (m.anchorsIn k p aliases items).outcome = .ok found ∧ (found = true ↔
      ∃ body, .generic none body ∈ items ∧ ∃ access ∈ body.accesses, ∃ target,
        m.LeadsTo p ⟨aliases, Scope.names body, access⟩ target ∧ m.owner target ∈ k.live) := by
  induction items with
  | nil => exact ⟨false, by simp [anchorsIn], by simp⟩
  | cons item rest ih =>
    simp only [Scope.everywhereIn, Bool.and_eq_true] at fine
    obtain ⟨later, run, meaning⟩ := ih fine.2
    by_cases block : ∃ body, item = .generic none body
    · obtain ⟨body, rfl⟩ := block
      have names := Scope.declaredNames_of_known (Scope.known_of_everywhere fine.1)
      obtain ⟨here, found, means⟩ :=
        anyLive_spec (k := k) rooted member bound (Scope.names body) body.accesses
      refine ⟨here || later, ?_, ?_⟩
      · cases here
        · simp [anchorsIn, names, found, run]
        · simp [anchorsIn, names, found]
      · rw [Bool.or_eq_true, means, meaning]
        constructor
        · rintro (⟨access, rest⟩ | ⟨body', member', rest⟩)
          · exact ⟨body, by simp, access, rest⟩
          · exact ⟨body', by simp [member'], rest⟩
        · rintro ⟨body', member', rest⟩
          rcases List.mem_cons.mp member' with same | listed
          · cases same
            exact .inl rest
          · exact .inr ⟨body', listed, rest⟩
    · refine ⟨later, ?_, ?_⟩
      · rw [← run]
        cases item with
        | generic owner body =>
          cases owner with
          | none => exact absurd ⟨body, rfl⟩ block
          | some name => simp [anchorsIn]
        | _ => simp [anchorsIn]
      · rw [meaning]
        constructor
        · rintro ⟨body, listed, rest⟩
          exact ⟨body, by simp [listed], rest⟩
        · rintro ⟨body, listed, rest⟩
          rcases List.mem_cons.mp listed with same | listed
          · exact absurd ⟨body, same.symm⟩ block
          · exact ⟨body, listed, rest⟩

/-- A module of a rooted map is found to hold an `impl` block for something live exactly if it does. -/
theorem anchors_spec (rooted : m.Rooted) {entry : ModulePath × Scope} (member : entry ∈ m.entries) :
    ∃ found, (m.anchors k entry.1 entry.2).outcome = .ok found ∧
      (found = true ↔ m.Anchored {p | p ∈ k.live} entry) := by
  have known := Scope.everywhere_iff.mp (rooted.known _ member)
  have targeted := Scope.everywhere_iff.mp (rooted.targeted _ member)
  exact anchorsIn_spec rooted (mem_keys_of_mem member) (Scope.bound_aliases targeted.1) known.2

/-! ### Rounds over the dead modules -/

/-- One round from an empty queue. It leaves fewer entries waiting, or it changes nothing and no dead
module that it looked at is anchored. -/
theorem round_total (rooted : m.Rooted) (entries : List (ModulePath × Scope)) (inMap : ∀ entry ∈ entries, entry ∈ m.entries)
    (k : Marking) (waiting : List (ModulePath × Scope)) (inv : Inv m k waiting) (empty : k.queue = []) :
    ∃ next left, (m.round entries k waiting).outcome = .ok (next, left) ∧ Inv m next left ∧ next.queue = [] ∧
      (∀ q ∈ k.live, q ∈ next.live) ∧ (left.length < waiting.length ∨
        next = k ∧ left = waiting ∧
          ∀ entry ∈ entries, entry.1 ∉ k.live → ¬ m.Anchored {p | p ∈ k.live} entry) := by
  induction entries generalizing k waiting with
  | nil => exact ⟨k, waiting, by simp [ModuleMap.round], inv, empty, fun _ live => live, .inr ⟨rfl, rfl, by simp⟩⟩
  | cons entry rest ih =>
    have member := inMap entry (by simp)
    have others : ∀ other ∈ rest, other ∈ m.entries := fun other later => inMap other (by simp [later])
    by_cases live : entry.1 ∈ k.live
    · obtain ⟨next, left, run, after, done, grown, progress⟩ := ih others k waiting inv empty
      refine ⟨next, left, by simp [ModuleMap.round, isLive, live, run], after, done, grown, ?_⟩
      rcases progress with fewer | ⟨same, still, none⟩
      · exact .inl fewer
      · refine .inr ⟨same, still, ?_⟩
        intro other listed dead
        rcases List.mem_cons.mp listed with rfl | later
        · exact absurd live dead
        · exact none other later dead
    · obtain ⟨found, looked, meaning⟩ := anchors_spec (k := k) rooted member
      cases found with
      | false =>
        obtain ⟨next, left, run, after, done, grown, progress⟩ := ih others k waiting inv empty
        refine ⟨next, left, by simp [ModuleMap.round, isLive, live, looked, run], after, done, grown, ?_⟩
        rcases progress with fewer | ⟨same, still, none⟩
        · exact .inl fewer
        · refine .inr ⟨same, still, ?_⟩
          intro other listed dead
          rcases List.mem_cons.mp listed with rfl | later
          · exact fun anchored => Bool.false_ne_true (meaning.mpr anchored)
          · exact none other later dead
      | true =>
        -- the module is in every closed set, since these hold all that is live
        have needed : ∀ modules, m.Closed modules → entry.1 ∈ modules := by
          intro modules closed
          obtain ⟨body, item, access, written, target, leads, owner⟩ := meaning.mp rfl
          exact closed.anchors entry member
            ⟨body, item, access, written, target, leads, inv.least modules closed _ owner⟩
        obtain ⟨marked, markRun, markInv, grows, nowLive⟩ :=
          inv.mark rooted (mem_keys_of_mem member) needed
        have queued : marked.queue ≠ [] := by
          obtain ⟨added, liveIs, queueIs⟩ := grows
          intro none
          have nothing : added = [] := by simpa [queueIs, empty] using none
          rw [liveIs, nothing, List.append_nil] at nowLive
          exact live nowLive
        obtain ⟨drained, left, drainRun, drainInv, drainEmpty, drainGrown, -, drainFewer⟩ :=
          drain_total rooted marked waiting markInv
        obtain ⟨next, last, run, after, done, grown, progress⟩ := ih others drained left drainInv drainEmpty
        refine ⟨next, last, by simp [ModuleMap.round, isLive, live, looked, markRun, drainRun, run], after, done,
          fun q member => grown q (drainGrown q (grows.live member)), .inl ?_⟩
        have := drainFewer queued
        rcases progress with fewer | ⟨-, still, -⟩
        · omega
        · rw [still]; exact this

/-- The rounds end with an empty queue and no dead module anchored. -/
theorem rounds_total (rooted : m.Rooted) (k : Marking) (waiting : List (ModulePath × Scope)) (inv : Inv m k waiting)
    (empty : k.queue = []) :
    ∃ last left, (m.rounds k waiting).outcome = .ok last ∧ Inv m last left ∧ last.queue = [] ∧
      (∀ q ∈ k.live, q ∈ last.live) ∧
        ∀ entry ∈ m.entries, entry.1 ∉ last.live → ¬ m.Anchored {p | p ∈ last.live} entry := by
  obtain ⟨next, left, run, after, done, grown, progress⟩ :=
    round_total rooted m.entries (fun _ member => member) k waiting inv empty
  rw [rounds]
  by_cases fewer : left.length < waiting.length
  · obtain ⟨last, end_, rest, lastInv, lastEmpty, lastGrown, none⟩ := rounds_total rooted next left after done
    exact ⟨last, end_, by simp [run, fewer, rest], lastInv, lastEmpty,
      fun q member => lastGrown q (grown q member), none⟩
  · rcases progress with shorter | ⟨rfl, rfl, none⟩
    · exact absurd shorter fewer
    · exact ⟨next, left, by simp [run], after, done, grown, none⟩
termination_by waiting.length

/-! ### The search -/

theorem markMacros_total (rooted : m.Rooted) (entries : List (ModulePath × Scope))
    (inMap : ∀ entry ∈ entries, entry ∈ m.entries) (k : Marking) (inv : Inv m k waiting) :
    ∃ next, (markMacros entries k).outcome = .ok next ∧ Inv m next waiting ∧ (∀ q ∈ k.live, q ∈ next.live) ∧
      ∀ entry ∈ entries, entry.2.definesMacros = true → entry.1 ∈ next.live := by
  induction entries generalizing k with
  | nil => exact ⟨k, by simp [markMacros], inv, fun _ live => live, by simp⟩
  | cons entry rest ih =>
    obtain ⟨path, scope⟩ := entry
    have member := inMap (path, scope) (by simp)
    have others : ∀ other ∈ rest, other ∈ m.entries := fun other later => inMap other (by simp [later])
    by_cases new : scope.definesMacros = true ∧ path ∉ k.live
    · obtain ⟨marked, markRun, markInv, grows, live⟩ := inv.mark rooted (mem_keys_of_mem member)
        (fun modules closed => closed.macros (path, scope) member new.1)
      obtain ⟨next, run, after, grown, all⟩ := ih others marked markInv
      refine ⟨next, by simp [markMacros, isLive, new, markRun, run], after,
        fun q old => grown q (grows.live old), ?_⟩
      rintro other listed defines
      rcases List.mem_cons.mp listed with rfl | later
      · exact grown _ live
      · exact all other later defines
    · obtain ⟨next, run, after, grown, all⟩ := ih others k inv
      refine ⟨next, ?_, after, grown, ?_⟩
      · rw [← run]
        by_cases defines : scope.definesMacros = true
        · have live : path ∈ k.live := by
            by_contra dead
            exact new ⟨defines, dead⟩
          simp [markMacros, isLive, live]
        · simp [markMacros, defines]
      · rintro other listed defines
        rcases List.mem_cons.mp listed with rfl | later
        · by_contra dead
          exact new ⟨defines, fun live => dead (grown path live)⟩
        · exact all other later defines

/-- The search succeeds on a rooted map. It ends with every live module visited, and the live modules are
closed under the rules of use. -/
theorem search_total (rooted : m.Rooted) :
    ∃ last left, m.search.outcome = .ok last ∧ Inv m last left ∧ last.queue = [] ∧
      m.Closed {p | p ∈ last.live} := by
  obtain ⟨first, firstRun, firstInv, -, root⟩ := (inv_start m).mark rooted rooted.root
    (fun modules closed => closed.root)
  obtain ⟨second, secondRun, secondInv, secondGrown, macros⟩ :=
    markMacros_total rooted m.entries (fun _ member => member) first firstInv
  obtain ⟨third, waiting, thirdRun, thirdInv, thirdEmpty, thirdGrown, -, -⟩ :=
    drain_total rooted second m.entries secondInv
  obtain ⟨last, left, lastRun, lastInv, lastEmpty, lastGrown, none⟩ :=
    rounds_total rooted third waiting thirdInv thirdEmpty
  refine ⟨last, left, ?_, lastInv, lastEmpty, ⟨?_, ?_, ?_, ?_, ?_⟩⟩
  · simp [search, check_eq_ok_iff.mpr rooted.searchable, firstRun, secondRun, thirdRun, lastRun]
  · exact lastGrown _ (thirdGrown _ (secondGrown _ root))
  · intro entry member defines
    exact lastGrown _ (thirdGrown _ (macros entry member defines))
  · exact lastInv.fits.ancestors
  · intro entry member live r written target leads
    have done : entry ∉ left := by
      have here : entry.1 ∈ last.live := live
      rw [lastInv.waits entry member, lastEmpty]
      simpa using here
    exact lastInv.reached entry member done r written target leads
  · intro entry member anchored
    by_contra dead
    exact none entry member dead anchored

/-- What the search for live modules finds in a rooted map: the least set of modules closed under the rules
of use, each once, and the declarations that these refer to. -/
theorem liveness_total (rooted : m.Rooted) :
    ∃ live, m.liveness.outcome = .ok live ∧ IsLeast {modules | m.Closed modules} {p | p ∈ live.modules} ∧
      (∀ p ∈ live.modules, p ∈ m.keys) ∧
        ∀ d, d ∈ live.declarations ↔ ∃ entry ∈ m.entries, entry.1 ∈ live.modules ∧ m.Names entry d := by
  obtain ⟨last, left, run, inv, empty, closed⟩ := search_total rooted
  refine ⟨⟨last.live, last.declarations⟩, by simp [liveness, run], ⟨closed, inv.least⟩, inv.fits.keys, ?_⟩
  intro d
  rw [inv.named d]
  have visited : ∀ entry ∈ m.entries, entry ∉ left ↔ entry.1 ∈ last.live := by
    intro entry member
    rw [inv.waits entry member, empty]
    simp
  constructor
  · rintro ⟨entry, member, done, names⟩
    exact ⟨entry, member, (visited entry member).mp done, names⟩
  · rintro ⟨entry, member, live, names⟩
    exact ⟨entry, member, (visited entry member).mpr live, names⟩

/-- A crate with a module that is used through an import of a function, one kept for its macros with the
module around it, one kept for an `impl` block, and one that is dead although a nested name is spelled like
it. -/
def sample : ModuleMap where
  entries :=
    [(⟨["crate"]⟩, { accesses := [⟨["a", "f"]⟩] }),
     (⟨["crate", "a"]⟩,
       { items := [.type "T", .generic (some "f")
          { items := [.imports [⟨some "x", ⟨["crate", "b"]⟩⟩], .type "e"],
            accesses := [⟨["x", "g"]⟩, ⟨["e", "h"]⟩] }] }),
     (⟨["crate", "b"]⟩, {}),
     (⟨["crate", "c"]⟩, {}),
     (⟨["crate", "c", "m"]⟩, { definesMacros := true }),
     (⟨["crate", "d"]⟩, { items := [.generic none { accesses := [⟨["crate", "a", "T"]⟩] }] }),
     (⟨["crate", "e"]⟩, { accesses := [⟨["super", "b"]⟩] })]

theorem sample_rooted : sample.Rooted := by
  refine ⟨?_, ?_, ?_, ?_, ?_, ?_⟩ <;> decide

end ModuleMap

end CrateFold
