import CrateFold.ModuleMap.Flatten
import CrateFold.Proofs.Resolution

/-!
What flattening makes of a scope tree. The bodies of a tree are listed with their paths, a module before
those in it (`filings`); the map is made by merging them in this order, each without the modules in it
(`gather`, `ofTree_outcome`). Flattening itself merges a body only after the modules in it, but these have
longer paths, so nothing is merged in between under the path of the body (`gather_mergeAt`). The map of a
tree of known items that imports nothing empty is rooted (`rooted_gather`).
-/
namespace CrateFold

namespace ModulePath

/-- Whether a text names a module: it is a single segment other than `crate`. -/
def isModuleName (name : String) : Bool :=
  match parse name with
  | .ok ⟨[segment]⟩ => segment != "crate"
  | _ => false

/-- The path of the module of the given name in `p`, which is `p` itself if the name is no path. -/
def enter (p : ModulePath) (name : String) : ModulePath := (p.joinText name).toOption.getD p

variable {p : ModulePath} {name : String}

/-- A module lies one step below the module that it is in. -/
theorem joinText_of_isModuleName (fine : isModuleName name = true) (p : ModulePath) :
    ∃ segment, p.joinText name = .ok ⟨p.segments ++ [segment]⟩ := by
  unfold isModuleName at fine
  split at fine
  · next segment parsed =>
    have plain : segment ≠ "crate" := by simpa using fine
    refine ⟨segment, ?_⟩
    have joined : p.join ⟨[segment]⟩ = ⟨p.segments ++ [segment]⟩ := by
      have := join_segments (p := p) (q := ⟨[segment]⟩) rfl plain
      cases q : p.join ⟨[segment]⟩
      simpa [q] using this
    simp [joinText, parsed, joined]
  · cases fine

theorem joinText_eq_enter (fine : isModuleName name = true) (p : ModulePath) : p.joinText name = .ok (p.enter name) := by
  obtain ⟨segment, joined⟩ := joinText_of_isModuleName fine p
  rw [enter, joined]
  rfl

theorem enter_segments (fine : isModuleName name = true) (p : ModulePath) :
    ∃ segment, (p.enter name).segments = p.segments ++ [segment] := by
  obtain ⟨segment, joined⟩ := joinText_of_isModuleName fine p
  exact ⟨segment, by simp [enter, joined, Except.toOption]⟩

/-- What lies around a module is the module itself or lies around the module that it is in. -/
theorem within_enter (fine : isModuleName name = true) {q : ModulePath} (lies : (p.enter name).Within q) :
    q = p.enter name ∨ p.Within q := by
  obtain ⟨segment, segments⟩ := enter_segments fine p
  obtain ⟨nonempty, before⟩ := lies
  rw [segments, List.prefix_concat_iff] at before
  rcases before with whole | inner
  · left
    cases q
    cases e : p.enter name
    rw [e] at segments
    simp_all
  · exact .inr ⟨nonempty, inner⟩

end ModulePath

/-- Whether an item that is a module has a name. -/
def Item.isNamed : Item → Bool
  | .module name _ => ModulePath.isModuleName name
  | _ => true

namespace Scope

/-! ### Scopes without modules -/

/-- Whether the modules directly in a scope have names. -/
def wellNamed (s : Scope) : Bool := s.items.all Item.isNamed

mutual

/-- A scope without the modules in it, at any depth. -/
def stripped : ScopeOf Item → Scope
  | ⟨items, accesses, definesMacros⟩ => ⟨strippedIn items, accesses, definesMacros⟩
termination_by structural s => s

/-- Items without the modules among and in them. -/
def strippedIn : List Item → List Item
  | [] => []
  | item :: rest => strippedAt item ++ strippedIn rest
termination_by structural l => l

/-- What is left of an item without the modules in it. -/
def strippedAt : Item → List Item
  | .module _ _ => []
  | .generic owner body => [.generic owner (stripped body)]
  | .block body => [.block (stripped body)]
  | .imports list => [.imports list]
  | .type name => [.type name]
  | .file body => [.file body]
  | .bare text => [.bare text]
termination_by structural item => item

end

end Scope

namespace ModuleMap

open ModulePath

/-! ### Putting scopes into a map -/

variable {m : ModuleMap} {p q path : ModulePath} {s t : Scope}

private theorem lookup_putIn (entries : List (ModulePath × Scope)) :
    (putIn p s entries).lookup q = if q = p then some s else entries.lookup q := by
  induction entries with
  | nil => by_cases same : q = p <;> simp [putIn, same]
  | cons entry rest ih =>
    obtain ⟨key, scope⟩ := entry
    by_cases here : key = p
    · subst here
      by_cases same : q = key
      · simp [putIn, same]
      · simp [putIn, List.lookup_cons, beq_false_of_ne same, same]
    · by_cases same : q = key
      · subst same
        simp [putIn, here]
      · simp [putIn, here, List.lookup_cons, beq_false_of_ne same, ih]

theorem get?_put : (m.put p s).get? q = if q = p then some s else m.get? q := lookup_putIn m.entries

private theorem keys_putIn (entries : List (ModulePath × Scope)) :
    (putIn p s entries).map Prod.fst =
      if p ∈ entries.map Prod.fst then entries.map Prod.fst else entries.map Prod.fst ++ [p] := by
  induction entries with
  | nil => simp [putIn]
  | cons entry rest ih =>
    by_cases here : entry.1 = p
    · simp [putIn, here]
    · by_cases there : p ∈ rest.map Prod.fst
      · simp only [putIn, here, if_false, List.map_cons, ih, there, if_true, List.mem_cons, or_true]
      · simp only [putIn, here, if_false, List.map_cons, ih, there, List.mem_cons, Ne.symm here, or_self,
          List.cons_append]

theorem keys_put : (m.put p s).keys = if p ∈ m.keys then m.keys else m.keys ++ [p] := keys_putIn m.entries

theorem mem_keys_put : q ∈ (m.put p s).keys ↔ q ∈ m.keys ∨ q = p := by
  rw [keys_put]
  split
  · next there =>
    constructor
    · exact .inl
    · rintro (old | rfl)
      · exact old
      · exact there
  · simp

theorem mem_put {entry : ModulePath × Scope} (member : entry ∈ (m.put p s).entries) :
    entry ∈ m.entries ∨ entry = (p, s) := by
  have general : ∀ entries : List (ModulePath × Scope), entry ∈ putIn p s entries → entry ∈ entries ∨ entry = (p, s) := by
    intro entries
    induction entries with
    | nil => simp [putIn]
    | cons first rest ih =>
      rw [putIn]
      split
      · simp only [List.mem_cons]
        rintro (new | later)
        · exact .inr new
        · exact .inl (.inr later)
      · simp only [List.mem_cons]
        rintro (same | later)
        · exact .inl (.inl same)
        · rcases ih later with old | new
          · exact .inl (.inr old)
          · exact .inr new
  exact general m.entries member

theorem put_put (m : ModuleMap) (p : ModulePath) (s t : Scope) : (m.put p s).put p t = m.put p t := by
  have general : ∀ entries : List (ModulePath × Scope), putIn p t (putIn p s entries) = putIn p t entries := by
    intro entries
    induction entries with
    | nil => simp [putIn]
    | cons entry rest ih => by_cases here : entry.1 = p <;> simp [putIn, here, ih]
  simp [put, general]

/-- Scopes of different modules are put in in any order, if one of the modules has its place already. -/
theorem put_comm (different : p ≠ q) (there : p ∈ m.keys) : (m.put q t).put p s = (m.put p s).put q t := by
  have general : ∀ entries : List (ModulePath × Scope), p ∈ entries.map Prod.fst →
      putIn p s (putIn q t entries) = putIn q t (putIn p s entries) := by
    intro entries
    induction entries with
    | nil => simp
    | cons entry rest ih =>
      intro member
      by_cases here : entry.1 = p
      · simp [putIn, here, different]
      · have later : p ∈ rest.map Prod.fst := by
          rcases List.mem_cons.mp (List.map_cons ▸ member) with same | later
          · exact absurd same.symm here
          · exact later
        by_cases other : entry.1 = q
        · simp [putIn, other, Ne.symm different]
        · simp [putIn, here, other, ih later]
  simp [put, general m.entries there]

theorem get?_eq_none (absent : p ∉ m.keys) : m.get? p = none := by
  apply List.lookup_eq_none_iff.mpr
  intro entry member
  have : entry.1 ≠ p := by
    rintro rfl
    exact absent (List.mem_map_of_mem member)
  simpa using Ne.symm this

/-! ### Merging bodies -/

theorem mergeAt_comm (different : p ≠ q) (there : p ∈ m.keys) :
    (m.mergeAt q t).mergeAt p s = (m.mergeAt p s).mergeAt q t := by
  simp only [mergeAt, get?_put, different, Ne.symm different, if_false]
  exact put_comm different there

theorem mem_keys_mergeAt : q ∈ (m.mergeAt p s).keys ↔ q ∈ m.keys ∨ q = p := mem_keys_put

/-- The map in which a module has its place. -/
def reserved (m : ModuleMap) (path : ModulePath) : ModuleMap := if m.contains path then m else m.put path .empty

theorem reserve_outcome (m : ModuleMap) (path : ModulePath) : (m.reserve path).outcome = .ok (m.reserved path) := by
  unfold reserve reserved
  split <;> simp

theorem mem_keys_reserved : path ∈ (m.reserved path).keys := by
  unfold reserved
  split
  · next there => exact contains_iff.mp there
  · exact mem_keys_put.mpr (.inr rfl)

/-- A body is merged where the module has its place as it is where it has none. -/
theorem mergeAt_reserved (m : ModuleMap) (path : ModulePath) (s : Scope) :
    (m.reserved path).mergeAt path s = m.mergeAt path s := by
  unfold reserved
  split
  · rfl
  · next absent =>
    have none : m.get? path = none := get?_eq_none fun member => absent (contains_iff.mpr member)
    simp only [mergeAt, get?_put, if_true, Option.getD_some, put_put, none, Option.getD_none]

/-! ### The bodies of a tree -/

mutual

/-- The bodies of the modules in a scope with their paths, a module before those in it. -/
def filings (path : ModulePath) : ScopeOf Item → List (ModulePath × Scope)
  | ⟨items, _, _⟩ => filingsIn path items
termination_by structural s => s

/-- The bodies of the modules among and in items. -/
def filingsIn (path : ModulePath) : List Item → List (ModulePath × Scope)
  | [] => []
  | item :: rest => filingsAt path item ++ filingsIn path rest
termination_by structural l => l

/-- The bodies of the modules in an item. -/
def filingsAt (path : ModulePath) : Item → List (ModulePath × Scope)
  | .module name body => (path.enter name, body) :: filings (path.enter name) body
  | .generic _ body => filings path body
  | .block body => filings path body
  | .imports _ => []
  | .type _ => []
  | .file _ => []
  | .bare _ => []
termination_by structural item => item

end

theorem filings_eq (path : ModulePath) (s : Scope) : filings path s = filingsIn path s.items := by
  cases s
  rfl

theorem filingsIn_append (path : ModulePath) (first rest : List Item) :
    filingsIn path (first ++ rest) = filingsIn path first ++ filingsIn path rest := by
  induction first with
  | nil => rfl
  | cons item more ih => simp [filingsIn, ih]

/-- Merges bodies into a map in order, each without the modules in it. -/
def gather (m : ModuleMap) (bodies : List (ModulePath × Scope)) : ModuleMap :=
  bodies.foldl (fun m body => m.mergeAt body.1 (Scope.stripped body.2)) m

theorem gather_cons (m : ModuleMap) (body : ModulePath × Scope) (rest : List (ModulePath × Scope)) :
    m.gather (body :: rest) = (m.mergeAt body.1 (Scope.stripped body.2)).gather rest := rfl

theorem gather_append (m : ModuleMap) (first rest : List (ModulePath × Scope)) :
    m.gather (first ++ rest) = (m.gather first).gather rest := List.foldl_append

/-- A body may be merged before bodies of other modules, if its module has its place already. -/
theorem gather_mergeAt {bodies : List (ModulePath × Scope)} (there : p ∈ m.keys) (others : ∀ body ∈ bodies, body.1 ≠ p) :
    (m.gather bodies).mergeAt p s = (m.mergeAt p s).gather bodies := by
  induction bodies generalizing m with
  | nil => rfl
  | cons body rest ih =>
    rw [gather_cons, gather_cons, ih (mem_keys_mergeAt.mpr (.inl there)) fun other later => others other (by simp [later]),
      mergeAt_comm (Ne.symm (others body (by simp))) there]

/-! ### Where the modules of a tree lie -/

/-- Bodies of modules that lie below the module `path`: their paths are longer, and what lies between is
among them. -/
structure Beneath (path : ModulePath) (bodies : List (ModulePath × Scope)) : Prop where
  longer : ∀ body ∈ bodies, path.segments.length < body.1.segments.length
  inside : ∀ body ∈ bodies, path.segments <+: body.1.segments
  around : ∀ body ∈ bodies, ∀ q, body.1.Within q → path.Within q ∨ q ∈ bodies.map Prod.fst

theorem beneath_nil : Beneath path [] := ⟨by simp, by simp, by simp⟩

theorem Beneath.append {first rest : List (ModulePath × Scope)} (one : Beneath path first) (other : Beneath path rest) :
    Beneath path (first ++ rest) := by
  refine ⟨?_, ?_, ?_⟩
  · intro body member
    rcases List.mem_append.mp member with early | late
    · exact one.longer body early
    · exact other.longer body late
  · intro body member
    rcases List.mem_append.mp member with early | late
    · exact one.inside body early
    · exact other.inside body late
  · intro body member q lies
    rw [List.map_append, List.mem_append]
    rcases List.mem_append.mp member with early | late
    · exact (one.around body early q lies).imp_right .inl
    · exact (other.around body late q lies).imp_right .inr

theorem Beneath.enter {name : String} {body : Scope} {bodies : List (ModulePath × Scope)}
    (fine : isModuleName name = true) (inner : Beneath (path.enter name) bodies) :
    Beneath path ((path.enter name, body) :: bodies) := by
  obtain ⟨segment, segments⟩ := enter_segments fine path
  refine ⟨?_, ?_, ?_⟩
  · intro other member
    rcases List.mem_cons.mp member with rfl | deeper
    · simp [segments]
    · have := inner.longer other deeper
      simp only [segments, List.length_append, List.length_singleton] at this
      omega
  · intro other member
    rcases List.mem_cons.mp member with rfl | deeper
    · exact ⟨[segment], segments.symm⟩
    · exact List.IsPrefix.trans ⟨[segment], segments.symm⟩ (inner.inside other deeper)
  · intro other member q lies
    rw [List.map_cons, List.mem_cons]
    have step : (path.enter name).Within q → path.Within q ∨ q = path.enter name ∨ q ∈ bodies.map Prod.fst := by
      intro around
      rcases within_enter fine around with same | outer
      · exact .inr (.inl same)
      · exact .inl outer
    rcases List.mem_cons.mp member with rfl | deeper
    · exact step lies
    · rcases inner.around other deeper q lies with around | among
      · exact step around
      · exact .inr (.inr among)

mutual

/-- The modules in a scope lie below the module that the scope is in. -/
theorem filings_beneath : ∀ (s : ScopeOf Item) (path : ModulePath), Scope.everywhere Scope.wellNamed s = true →
    Beneath path (filings path s)
  | ⟨items, _, _⟩, path, named => by
    have all := Scope.everywhere_iff.mp named
    exact filingsIn_beneath items path all.1 all.2
termination_by structural s => s

theorem filingsIn_beneath : ∀ (items : List Item) (path : ModulePath), items.all Item.isNamed = true →
    Scope.everywhereIn Scope.wellNamed items = true → Beneath path (filingsIn path items)
  | [], _, _, _ => beneath_nil
  | item :: rest, path, here, named => by
    simp only [Scope.everywhereIn, Bool.and_eq_true] at named
    simp only [List.all_cons, Bool.and_eq_true] at here
    exact (filingsAt_beneath item path here.1 named.1).append (filingsIn_beneath rest path here.2 named.2)
termination_by structural l => l

theorem filingsAt_beneath : ∀ (item : Item) (path : ModulePath), item.isNamed = true →
    Scope.everywhereAt Scope.wellNamed item = true → Beneath path (filingsAt path item)
  | .module name body, path, here, named => Beneath.enter here (filings_beneath body (path.enter name) named)
  | .generic _ body, path, _, named => filings_beneath body path named
  | .block body, path, _, named => filings_beneath body path named
  | .imports _, _, _, _ => beneath_nil
  | .type _, _, _, _ => beneath_nil
  | .file _, _, _, _ => beneath_nil
  | .bare _, _, _, _ => beneath_nil
termination_by structural item => item

end

/-! ### Flattening -/

mutual

/-- Filing a body of known items merges it and the bodies of the modules in it, in order. -/
theorem lift_outcome : ∀ (s : ScopeOf Item) (path : ModulePath) (m : ModuleMap),
    Scope.everywhere Scope.known s = true → Scope.everywhere Scope.wellNamed s = true →
      (lift path s m).outcome = .ok (m.gather ((path, s) :: filings path s))
  | ⟨items, accesses, definesMacros⟩, path, m, known, named => by
    have fine := Scope.everywhere_iff.mp known
    have names := Scope.everywhere_iff.mp named
    have below := filingsIn_beneath items path names.1 names.2
    have others : ∀ body ∈ filingsIn path items, body.1 ≠ path := by
      rintro body member rfl
      exact Nat.lt_irrefl _ (below.longer body member)
    simp only [lift, Traced.outcome_bind, reserve_outcome, ok_bind,
      stripItems_outcome items path _ fine.1 fine.2 names.1 names.2, Traced.outcome_pure, gather_cons, filings,
      Scope.stripped, gather_mergeAt mem_keys_reserved others, mergeAt_reserved]
termination_by structural s => s

theorem strip_outcome : ∀ (s : ScopeOf Item) (path : ModulePath) (m : ModuleMap),
    Scope.everywhere Scope.known s = true → Scope.everywhere Scope.wellNamed s = true →
      (strip path s m).outcome = .ok (m.gather (filings path s), Scope.stripped s)
  | ⟨items, accesses, definesMacros⟩, path, m, known, named => by
    have fine := Scope.everywhere_iff.mp known
    have names := Scope.everywhere_iff.mp named
    simp only [strip, Traced.outcome_bind, stripItems_outcome items path _ fine.1 fine.2 names.1 names.2, ok_bind,
      Traced.outcome_pure, filings, Scope.stripped]
termination_by structural s => s

theorem stripItems_outcome : ∀ (items : List Item) (path : ModulePath) (m : ModuleMap),
    items.all Item.isKnown = true → Scope.everywhereIn Scope.known items = true →
    items.all Item.isNamed = true → Scope.everywhereIn Scope.wellNamed items = true →
      (stripItems path items m).outcome = .ok (m.gather (filingsIn path items), Scope.strippedIn items)
  | [], _, _, _, _, _, _ => rfl
  | item :: rest, path, m, here, known, names, named => by
    simp only [List.all_cons, Bool.and_eq_true] at here names
    simp only [Scope.everywhereIn, Bool.and_eq_true] at known named
    simp only [stripItems, Traced.outcome_bind, stripItem_outcome item path m here.1 known.1 names.1 named.1, ok_bind,
      stripItems_outcome rest path _ here.2 known.2 names.2 named.2, Traced.outcome_pure, filingsIn, gather_append,
      Scope.strippedIn]
termination_by structural l => l

theorem stripItem_outcome : ∀ (item : Item) (path : ModulePath) (m : ModuleMap), item.isKnown = true →
    Scope.everywhereAt Scope.known item = true → item.isNamed = true → Scope.everywhereAt Scope.wellNamed item = true →
      (stripItem path item m).outcome = .ok (m.gather (filingsAt path item), Scope.strippedAt item)
  | .module name body, path, m, _, known, name_, named => by
    simp only [stripItem, joinText_eq_enter name_ path, Traced.lift_ok, pure_bind, Traced.outcome_bind,
      lift_outcome body (path.enter name) m known named, ok_bind, Traced.outcome_pure, filingsAt, Scope.strippedAt]
  | .generic _ body, path, m, _, known, _, named => by
    simp only [stripItem, Traced.outcome_bind, strip_outcome body path m known named, ok_bind, Traced.outcome_pure,
      filingsAt, Scope.strippedAt]
  | .block body, path, m, _, known, _, named => by
    simp only [stripItem, Traced.outcome_bind, strip_outcome body path m known named, ok_bind, Traced.outcome_pure,
      filingsAt, Scope.strippedAt]
  | .imports _, _, _, _, _, _, _ => rfl
  | .type _, _, _, _, _, _, _ => rfl
  | .file _, _, _, unknown, _, _, _ => by cases unknown
  | .bare _, _, _, unknown, _, _, _ => by cases unknown
termination_by structural item => item

end

/-- The bodies of a crate with the given scope at its top. -/
def bodies (s : Scope) : List (ModulePath × Scope) := (.crate, s) :: filings .crate s

/-- The map of a tree of known items and named modules gathers the bodies of the tree. -/
theorem ofTree_outcome (known : Scope.everywhere Scope.known s = true) (named : Scope.everywhere Scope.wellNamed s = true) :
    (ofTree (.file s)).outcome = .ok (gather {} (bodies s)) := by
  simp [ofTree, lift_outcome s .crate {} known named, bodies]

/-! ### The gathered map -/

theorem mem_keys_gather {bodies : List (ModulePath × Scope)} :
    p ∈ (m.gather bodies).keys ↔ p ∈ m.keys ∨ p ∈ bodies.map Prod.fst := by
  induction bodies generalizing m with
  | nil => simp [gather]
  | cons body rest ih => rw [gather_cons, ih, mem_keys_mergeAt, List.map_cons, List.mem_cons, or_assoc]

theorem nodup_gather {bodies : List (ModulePath × Scope)} (distinct : m.keys.Nodup) : (m.gather bodies).keys.Nodup := by
  induction bodies generalizing m with
  | nil => exact distinct
  | cons body rest ih =>
    apply ih
    change (m.put body.1 _).keys.Nodup
    rw [keys_put]
    split
    · exact distinct
    · next absent =>
      refine List.nodup_append.mpr ⟨distinct, by simp, ?_⟩
      rintro p member _ last rfl
      rw [List.mem_singleton] at last
      exact absent (last ▸ member)

/-- What holds of the bodies without the modules in them holds of the scopes of the map, if merging keeps it. -/
theorem entries_gather (property : Scope → Prop) {bodies : List (ModulePath × Scope)} (empty : property .empty)
    (merges : ∀ s t, property s → property t → property (s.merge t)) (old : ∀ entry ∈ m.entries, property entry.2)
    (new : ∀ body ∈ bodies, property (Scope.stripped body.2)) : ∀ entry ∈ (m.gather bodies).entries, property entry.2 := by
  induction bodies generalizing m with
  | nil => exact old
  | cons body rest ih =>
    refine ih ?_ fun other later => new other (by simp [later])
    intro entry member
    rcases mem_put member with before | rfl
    · exact old entry before
    · refine merges _ _ ?_ (new body (by simp))
      cases found : m.get? body.1 with
      | none => exact empty
      | some scope => exact old _ (mem_of_get? found)

mutual

theorem everywhere_filings {property : Scope → Bool} : ∀ (s : ScopeOf Item) {path : ModulePath},
    Scope.everywhere property s = true → ∀ body ∈ filings path s, Scope.everywhere property body.2 = true
  | ⟨items, _, _⟩, _, all, body, member =>
    everywhere_filingsIn items (Scope.everywhere_iff.mp all).2 body member
termination_by structural s => s

theorem everywhere_filingsIn {property : Scope → Bool} : ∀ (items : List Item) {path : ModulePath},
    Scope.everywhereIn property items = true → ∀ body ∈ filingsIn path items, Scope.everywhere property body.2 = true
  | [], _, _, _, member => by cases member
  | item :: rest, _, all, body, member => by
    simp only [Scope.everywhereIn, Bool.and_eq_true] at all
    rcases List.mem_append.mp member with first | later
    · exact everywhere_filingsAt item all.1 body first
    · exact everywhere_filingsIn rest all.2 body later
termination_by structural l => l

theorem everywhere_filingsAt {property : Scope → Bool} : ∀ (item : Item) {path : ModulePath},
    Scope.everywhereAt property item = true → ∀ body ∈ filingsAt path item, Scope.everywhere property body.2 = true
  | .module _ inner, _, all, body, member => by
    rcases List.mem_cons.mp member with rfl | deeper
    · exact all
    · exact everywhere_filings inner all body deeper
  | .generic _ inner, _, all, body, member => everywhere_filings inner all body member
  | .block inner, _, all, body, member => everywhere_filings inner all body member
  | .imports _, _, _, _, member => by cases member
  | .type _, _, _, _, member => by cases member
  | .file _, _, _, _, member => by cases member
  | .bare _, _, _, _, member => by cases member
termination_by structural item => item

end

end ModuleMap

namespace Scope

variable {s t : Scope} {property : Scope → Bool}

theorem everywhereIn_append {first rest : List Item} :
    everywhereIn property (first ++ rest) = (everywhereIn property first && everywhereIn property rest) := by
  induction first with
  | nil => rfl
  | cons item more ih => simp [everywhereIn, ih, Bool.and_assoc]

theorem everywhere_merge (local_ : ∀ s t, property s = true → property t = true → property (s.merge t) = true)
    (one : everywhere property s = true) (other : everywhere property t = true) :
    everywhere property (s.merge t) = true := by
  rw [everywhere_iff] at one other ⊢
  refine ⟨local_ s t one.1 other.1, ?_⟩
  simp only [merge, ofParts, everywhereIn_append, one.2, other.2, Bool.and_self]

mutual

theorem everywhere_stripped (keeps : ∀ s : Scope, property s = true → property (stripped s) = true) :
    ∀ s : ScopeOf Item, everywhere property s = true → everywhere property (stripped s) = true
  | ⟨items, accesses, definesMacros⟩, all => by
    have parts := everywhere_iff.mp all
    exact everywhere_iff.mpr ⟨keeps _ parts.1, everywhereIn_stripped keeps items parts.2⟩
termination_by structural s => s

theorem everywhereIn_stripped (keeps : ∀ s : Scope, property s = true → property (stripped s) = true) :
    ∀ items : List Item, everywhereIn property items = true → everywhereIn property (strippedIn items) = true
  | [], _ => rfl
  | item :: rest, all => by
    simp only [everywhereIn, Bool.and_eq_true] at all
    rw [strippedIn, everywhereIn_append, everywhereAt_stripped keeps item all.1, everywhereIn_stripped keeps rest all.2]
    rfl
termination_by structural l => l

theorem everywhereAt_stripped (keeps : ∀ s : Scope, property s = true → property (stripped s) = true) :
    ∀ item : Item, everywhereAt property item = true → everywhereIn property (strippedAt item) = true
  | .module _ _, _ => rfl
  | .generic _ body, all => by simpa [strippedAt, everywhereIn, everywhereAt] using everywhere_stripped keeps body all
  | .block body, all => by simpa [strippedAt, everywhereIn, everywhereAt] using everywhere_stripped keeps body all
  | .imports _, _ => rfl
  | .type _, _ => rfl
  | .file _, all => by simpa [strippedAt, everywhereIn] using all
  | .bare _, _ => rfl
termination_by structural item => item

end

theorem known_merge (one : s.known = true) (other : t.known = true) : (s.merge t).known = true := by
  simp only [known, merge, ofParts, List.all_append, Bool.and_eq_true]
  exact ⟨one, other⟩

theorem known_stripped (fine : s.known = true) : (stripped s).known = true := by
  obtain ⟨items, accesses, definesMacros⟩ := s
  simp only [known, stripped] at fine ⊢
  induction items with
  | nil => rfl
  | cons item rest ih =>
    simp only [List.all_cons, Bool.and_eq_true] at fine
    rw [strippedIn, List.all_append, ih fine.2, Bool.and_true]
    cases item <;> simp_all [strippedAt, Item.isKnown]

theorem targeted_merge (one : s.targeted = true) (other : t.targeted = true) : (s.merge t).targeted = true := by
  simp only [targeted, importList, merge, ofParts, List.flatMap_append, List.all_append, Bool.and_eq_true]
  exact ⟨one, other⟩

/-- Taking modules out takes no import out. -/
theorem importList_stripped : (stripped s).importList = s.importList := by
  obtain ⟨items, accesses, definesMacros⟩ := s
  simp only [importList, stripped]
  induction items with
  | nil => rfl
  | cons item rest ih =>
    rw [strippedIn, List.flatMap_append, ih, List.flatMap_cons]
    cases item <;> simp [strippedAt]

theorem targeted_stripped (fine : s.targeted = true) : (stripped s).targeted = true := by
  rw [targeted, importList_stripped]
  exact fine

end Scope

namespace ModuleMap

variable {s : Scope}

theorem everywhere_bodies {property : Scope → Bool} (all : Scope.everywhere property s = true) :
    ∀ body ∈ bodies s, Scope.everywhere property body.2 = true := by
  intro body member
  rcases List.mem_cons.mp member with rfl | deeper
  · exact all
  · exact everywhere_filings s all body deeper

/-- A property of all scopes of a tree that merging and taking modules out keep holds of all scopes of its map. -/
theorem everywhere_gather (property : Scope → Bool) (empty : property .empty = true)
    (merges : ∀ s t, property s = true → property t = true → property (s.merge t) = true)
    (keeps : ∀ s, property s = true → property (Scope.stripped s) = true) (all : Scope.everywhere property s = true) :
    ∀ entry ∈ (gather {} (bodies s)).entries, Scope.everywhere property entry.2 = true :=
  entries_gather (fun scope => Scope.everywhere property scope = true)
    (Scope.everywhere_iff.mpr ⟨empty, rfl⟩) (fun _ _ => Scope.everywhere_merge merges) (by simp)
    fun body member => Scope.everywhere_stripped keeps body.2 (everywhere_bodies all body member)

/-- The map of a tree of known items and named modules that imports nothing empty is rooted. -/
theorem rooted_gather (known : Scope.everywhere Scope.known s = true) (named : Scope.everywhere Scope.wellNamed s = true)
    (targeted : Scope.everywhere Scope.targeted s = true) : (gather {} (bodies s)).Rooted := by
  have below := filings_beneath s .crate named
  have keys : ∀ p, p ∈ (gather {} (bodies s)).keys ↔ p = .crate ∨ p ∈ (filings .crate s).map Prod.fst := by
    intro p
    rw [mem_keys_gather, bodies, List.map_cons, List.mem_cons]
    simp [ModuleMap.keys]
  have absolute : ∀ p ∈ (gather {} (bodies s)).keys, p.isCratePath = true := by
    intro p member
    rcases (keys p).mp member with rfl | among
    · rfl
    · obtain ⟨body, inside, rfl⟩ := List.mem_map.mp among
      obtain ⟨rest, same⟩ := below.inside body inside
      exact ModulePath.isCratePath_iff.mpr ⟨rest, by rw [← same]; rfl⟩
  refine ⟨nodup_gather (by simp [ModuleMap.keys]), (keys _).mpr (.inl rfl), absolute, ?_, ?_, ?_⟩
  · intro p member q listed
    have lies := (ModulePath.mem_lineage (ModulePath.segments_ne_nil (absolute p member))).mp listed
    have top : ModulePath.crate.Within q → q = .crate := by
      intro around
      exact (ModulePath.within_crate (around.isCratePath rfl)).antisymm around
    rw [keys]
    rcases (keys p).mp member with rfl | among
    · exact .inl (top lies)
    · obtain ⟨body, inside, rfl⟩ := List.mem_map.mp among
      exact (below.around body inside q lies).imp_left top
  · exact everywhere_gather Scope.known rfl (fun _ _ => Scope.known_merge) (fun _ => Scope.known_stripped) known
  · exact everywhere_gather Scope.targeted rfl (fun _ _ => Scope.targeted_merge) (fun _ => Scope.targeted_stripped) targeted

end ModuleMap

end CrateFold
