import CrateFold.Fault

/-!
# Traced computations

A computation here may end in a fault, and it leaves a log either way: what was done before the fault
stays in the log. `Traced α` is an outcome together with the log; running one computation after
another appends their logs. The outcome never depends on the log (`outcome_bind`).
-/

namespace CrateFold

/-- How much a log record matters. -/
inductive Level where
  | debug
  | info
  /-- Something in the sources that is probably wrong. -/
  | warning
deriving DecidableEq, Repr

/-- The name of a level. -/
def Level.text : Level → String
  | .debug => "DEBUG"
  | .info => "INFO"
  | .warning => "WARNING"

/-- The rank of a level; records below a chosen rank are not shown. -/
def Level.rank : Level → Nat
  | .debug => 10
  | .info => 20
  | .warning => 30

/-- The parts of the program that keep a log. -/
inductive Component where
  /-- Reads sources as trees. -/
  | reading
  | scopes
  | moduleMap
  /-- Finds and removes dead modules. -/
  | liveness
  | moduleFiles
  /-- Loads and inlines module files. -/
  | loading
  /-- Runs the phases. -/
  | bundling
deriving DecidableEq, Repr

/-- The name of a component in the log. -/
def Component.text : Component → String
  | .reading => "rsbundle.frontend.parser"
  | .scopes => "rsbundle.analysis.scope_tree"
  | .moduleMap => "rsbundle.passes.flatten"
  | .liveness => "rsbundle.passes.tree_shaking"
  | .moduleFiles => "rsbundle.analysis.module_system.path_resolver"
  | .loading => "rsbundle.analysis.module_system.module_loader"
  | .bundling => "rsbundle.compiler.driver"

/-- One entry of the log. -/
structure LogRecord where
  level : Level
  component : Component
  message : String
deriving DecidableEq, Repr

/-- The log, oldest record first. -/
abbrev Log := List LogRecord

/-- An outcome and the log of the computation that led to it. -/
structure Traced (α : Type) where
  outcome : Except Fault α
  log : Log

namespace Traced

variable {α β γ : Type}

/-- Runs a second computation on the result of a first one. -/
def bind (x : Traced α) (f : α → Traced β) : Traced β :=
  match x.outcome with
  | .ok a =>
    let y := f a
    ⟨y.outcome, x.log ++ y.log⟩
  | .error fault => ⟨.error fault, x.log⟩

instance : Monad Traced where
  pure a := ⟨.ok a, []⟩
  bind := bind

/-- An outcome with nothing recorded. -/
def ofExcept (outcome : Except Fault α) : Traced α := ⟨outcome, []⟩

instance : MonadLift (Except Fault) Traced := ⟨ofExcept⟩

/-- Ends the computation. -/
def fail (fault : Fault) : Traced α := ⟨.error fault, []⟩

/-- Adds a record to the log. -/
def record (level : Level) (component : Component) (message : String) : Traced Unit :=
  ⟨.ok (), [⟨level, component, message⟩]⟩

/-- Runs a computation and hands an error of the bundling run on as a result. -/
def attempt (x : Traced α) : Traced (Except BundleError α) :=
  match x.outcome with
  | .ok a => ⟨.ok (.ok a), x.log⟩
  | .error (.bundle error) => ⟨.ok (.error error), x.log⟩
  | .error fault => ⟨.error fault, x.log⟩

@[simp] theorem outcome_pure (a : α) : (pure a : Traced α).outcome = .ok a := rfl

@[simp] theorem outcome_bind (x : Traced α) (f : α → Traced β) :
    (x >>= f).outcome = x.outcome >>= fun a => (f a).outcome := by
  change (bind x f).outcome = _
  unfold bind
  cases x.outcome <;> rfl

@[simp] theorem outcome_ofExcept (e : Except Fault α) : (ofExcept e).outcome = e := rfl

@[simp] theorem outcome_fail (fault : Fault) : (fail fault : Traced α).outcome = .error fault := rfl

@[simp] theorem outcome_record (level : Level) (component : Component) (message : String) :
    (record level component message).outcome = .ok () := rfl

instance : LawfulMonad Traced := LawfulMonad.mk' Traced
  (fun x => by
    rcases x with ⟨_ | a, log⟩ <;> simp [Functor.map, bind])
  (fun a f => by simp [Bind.bind, Pure.pure, bind])
  (fun x f g => by
    rcases x with ⟨_ | a, log⟩
    · rfl
    · rcases h : f a with ⟨_ | b, more⟩ <;> simp [Bind.bind, bind, h])

end Traced

end CrateFold
