import CrateFold.Proofs.Flattening
import CrateFold.Proofs.Locality

/-!
Putting scopes in place of modules. `Scope.fill` goes through the modules of a scope in order, at every depth, and
replaces those for which there is a scope. `Fills` compares what is read with and without such scopes; it is kept by
adding scopes together and by wrapping them.
-/
namespace CrateFold

namespace Scope

mutual

/-- A scope in which the modules for which there is a scope are replaced by modules with that scope, and the scopes
that are left; a module for which there is none stays, with the modules in it replaced likewise. -/
def fill (slots : List (Option Scope)) : ScopeOf Item → Scope × List (Option Scope)
  | ⟨items, accesses, definesMacros⟩ =>
    let filled := fillIn slots items
    (⟨filled.1, accesses, definesMacros⟩, filled.2)
termination_by structural s => s

/-- Items with the modules among and in them replaced, in order. -/
def fillIn (slots : List (Option Scope)) : List Item → List Item × List (Option Scope)
  | [] => ([], slots)
  | item :: rest =>
    let first := fillAt slots item
    let others := fillIn first.2 rest
    (first.1 :: others.1, others.2)
termination_by structural l => l

/-- An item with the modules at and in it replaced. -/
def fillAt (slots : List (Option Scope)) : Item → Item × List (Option Scope)
  | .module name body =>
    match slots with
    | [] => (.module name body, [])
    | some scope :: more => (.module name scope, more)
    | none :: more =>
      let filled := fill more body
      (.module name filled.1, filled.2)
  | .generic owner body =>
    let filled := fill slots body
    (.generic owner filled.1, filled.2)
  | .block body =>
    let filled := fill slots body
    (.block filled.1, filled.2)
  | .imports list => (.imports list, slots)
  | .type name => (.type name, slots)
  | .file body => (.file body, slots)
  | .bare text => (.bare text, slots)
termination_by structural item => item

end

/-- The second list of items is the first with exactly the given scopes in place. -/
def Takes (slots : List (Option Scope)) (items filled : List Item) : Prop :=
  ∀ more, fillIn (slots ++ more) items = (filled, more)

theorem takes_nil : Takes [] [] [] := fun _ => rfl

theorem fillIn_append (slots : List (Option Scope)) (first rest : List Item) :
    fillIn slots (first ++ rest) =
      ((fillIn slots first).1 ++ (fillIn (fillIn slots first).2 rest).1, (fillIn (fillIn slots first).2 rest).2) := by
  induction first generalizing slots with
  | nil => rfl
  | cons item more ih => simp only [List.cons_append, fillIn, ih]

theorem Takes.append {one two : List (Option Scope)} {first rest first' rest' : List Item}
    (here : Takes one first first') (later : Takes two rest rest') : Takes (one ++ two) (first ++ rest) (first' ++ rest') := by
  intro more
  rw [fillIn_append, List.append_assoc, here, later]

/-- What is read from a tree with bodies in place, compared to what is read from it without them. -/
structure Fills (slots : List (Option Scope)) (s t : Scope) : Prop where
  accesses : t.accesses = s.accesses
  macros : t.definesMacros = s.definesMacros
  items : Takes slots s.items t.items

theorem fills_empty : Fills [] .empty .empty := ⟨rfl, rfl, takes_nil⟩

theorem Fills.absorb {one two : List (Option Scope)} {s t r q : Scope} (here : Fills one s t) (later : Fills two r q) :
    Fills (one ++ two) (s.absorb r) (t.absorb q) := by
  refine ⟨?_, ?_, here.items.append later.items⟩
  · simp only [Scope.absorb, here.accesses, later.accesses]
  · simp only [Scope.absorb, here.macros, later.macros]

theorem Fills.fill {slots : List (Option Scope)} {s t : Scope} (filled : Fills slots s t) (more : List (Option Scope)) :
    Scope.fill (slots ++ more) s = (t, more) := by
  obtain ⟨items, accesses, definesMacros⟩ := s
  obtain ⟨items', accesses', definesMacros'⟩ := t
  obtain ⟨one, two, three⟩ := filled
  cases one
  cases two
  simp only [Scope.fill, three more]

theorem takes_single {slots : List (Option Scope)} {item filled : Item}
    (each : ∀ more, fillAt (slots ++ more) item = (filled, more)) : Takes slots [item] [filled] := by
  intro more
  simp only [fillIn, each]

/-- A scope without a name takes the scopes that its parts take. -/
theorem Fills.generic {slots : List (Option Scope)} {s t : Scope} (filled : Fills slots s t) (owner : Option String) :
    Takes slots [.generic owner s] [.generic owner t] :=
  takes_single fun more => by simp only [fillAt, filled.fill more]

theorem Fills.block {slots : List (Option Scope)} {s t : Scope} (filled : Fills slots s t) :
    Takes slots [.block s] [.block t] :=
  takes_single fun more => by simp only [fillAt, filled.fill more]

theorem Fills.module {slots : List (Option Scope)} {s t : Scope} (filled : Fills slots s t) (name : String) :
    Takes (none :: slots) [.module name s] [.module name t] :=
  takes_single fun more => by simp only [List.cons_append, fillAt, filled.fill more]

theorem takes_body (name : String) (s t : Scope) : Takes [some t] [.module name s] [.module name t] :=
  takes_single fun _ => rfl

mutual

/-- A scope of known items takes as many empty slots as there are modules in it, and stays as it is. -/
theorem fill_none : ∀ (s : ScopeOf Item) (path : ModulePath) (more : List (Option Scope)),
    fill (List.replicate (ModuleMap.filings path s).length none ++ more) s = (s, more)
  | ⟨items, accesses, definesMacros⟩, path, more => by
    simp only [fill, ModuleMap.filings, fillIn_none items path more]
termination_by structural s => s

theorem fillIn_none : ∀ (items : List Item) (path : ModulePath) (more : List (Option Scope)),
    fillIn (List.replicate (ModuleMap.filingsIn path items).length none ++ more) items = (items, more)
  | [], _, _ => rfl
  | item :: rest, path, more => by
    simp only [ModuleMap.filingsIn, List.length_append, List.replicate_add, List.append_assoc, fillIn,
      fillAt_none item path, fillIn_none rest path]
termination_by structural l => l

theorem fillAt_none : ∀ (item : Item) (path : ModulePath) (more : List (Option Scope)),
    fillAt (List.replicate (ModuleMap.filingsAt path item).length none ++ more) item = (item, more)
  | .module name body, path, more => by
    simp only [ModuleMap.filingsAt, List.length_cons, List.replicate_succ, List.cons_append, fillAt,
      fill_none body (path.enter name) more]
  | .generic _ body, path, more => by simp only [ModuleMap.filingsAt, fillAt, fill_none body path more]
  | .block body, path, more => by simp only [ModuleMap.filingsAt, fillAt, fill_none body path more]
  | .imports _, _, _ => rfl
  | .type _, _, _ => rfl
  | .file _, _, _ => rfl
  | .bare _, _, _ => rfl
termination_by structural item => item

end

end Scope

end CrateFold
