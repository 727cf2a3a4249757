import DataLayout.Loader
import DataLayout.Resolution

/-!
# Compiling

From a path to a resolved unit, with every way this can fail.
-/

set_option autoImplicit false

namespace DataLayout

inductive CompileError where
  | source (path : String) (error : SourceError)
  | parse (failure : ParseFailure)
  | resolve (failure : ResolveFailure)
  deriving DecidableEq, Repr

namespace CompileError

def message : CompileError → String
  | .source path e => path ++ ": " ++ e.message
  | .parse f => f.text ParseError.message
  | .resolve f => f.text ResolveError.message

end CompileError

/-- Loads the file at `path` with everything it includes and resolves it. -/
def compile (sources : Sources) (path : String) : Except CompileError CompilationUnit :=
  match sources.fetch none path with
  | .error e => .error (.source path e)
  | .ok source =>
    match ((Loader.ofSources sources).load source).1 with
    | .error f => .error (.parse f)
    | .ok unit =>
      match unit.resolve with
      | ⟨resolved, none⟩ => .ok resolved
      | ⟨_, some f⟩ => .error (.resolve f)

end DataLayout
