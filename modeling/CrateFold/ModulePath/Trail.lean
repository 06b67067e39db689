import CrateFold.ModulePath.Parse

/-!
# Keys and trails

A path is kept for one of two ends. A key names a module: it stays as it is, and things are looked up by
its text. A trail follows a walk through nested modules: it is pushed when a module is entered and popped
when it is left, so nothing is looked up by it until it is kept as a key.
-/

namespace CrateFold

/-- A path and what it is kept for. -/
inductive KeptPath where
  /-- A path that stays as it is. -/
  | key (path : ModulePath)
  /-- A path that follows a walk. -/
  | trail (path : ModulePath)
deriving DecidableEq, Repr

namespace KeptPath

/-- The path itself. -/
def path : KeptPath → ModulePath
  | .key p | .trail p => p

/-- Another path, kept for the same end. -/
def replace : KeptPath → ModulePath → KeptPath
  | .key _, p => .key p
  | .trail _, p => .trail p

/-- Enters the module that a text names. -/
def push : KeptPath → String → Except Fault KeptPath
  | .key _, _ => .error .pushedKey
  | .trail p, s => (p.joinText s).map trail

/-- Leaves the innermost module, and says whether there was one to leave. -/
def pop : KeptPath → Except Fault (Bool × KeptPath)
  | .key _ => .error .poppedKey
  | .trail p => .ok (p.pop?.isSome, .trail p.pop)

/-- The text by which things are looked up. -/
def lookupText : KeptPath → Except Fault String
  | .key p => .ok p.text
  | .trail _ => .error .trailAsKey

end KeptPath

end CrateFold
