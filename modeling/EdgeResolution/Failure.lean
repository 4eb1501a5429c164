/-
# EdgeResolution.Failure -- what can go wrong, and how it is told

A failure names its cause; `message` is the text shown for it and `help` the advice
that goes with it.  Four of the causes are selection failures: they are due to the
declaration of a dependency, the others to a caller or to the surroundings.
-/

namespace EdgeResolution

set_option autoImplicit false

inductive Failure where
  | io (cause : String)
  | invalidSelector (reason : String)
  | noMatchingVariant (requestedBy target attributes : String)
  | ambiguousVariant (requestedBy target : String) (candidates : List String)
  | configurationNotFound (component configuration target missing : String)
  | nothingSelected (requestedBy target : String)
  | unusableSettings (reason : String)
  deriving DecidableEq, Repr

namespace Failure

def message : Failure → String
  | .io cause => "I/O error: " ++ cause
  | .invalidSelector reason => "Invalid selector: " ++ reason
  | .noMatchingVariant requestedBy target attributes =>
      "No matching variant of " ++ target ++ " was found for " ++ requestedBy ++
        " with attributes " ++ attributes
  | .ambiguousVariant requestedBy target candidates =>
      "Ambiguous variants of " ++ target ++ " for " ++ requestedBy ++ ": " ++
        String.intercalate ", " candidates
  | .configurationNotFound component configuration target missing =>
      component ++ " (" ++ configuration ++ ") requires configuration '" ++ missing ++
        "' which does not exist in " ++ target
  | .nothingSelected requestedBy target =>
      "No configuration of " ++ target ++ " was selected for " ++ requestedBy
  | .unusableSettings reason => "Configuration error: " ++ reason

def help : Failure → Option String
  | .invalidSelector _ =>
      some "Module edges can only be retargeted to module or project selectors"
  | .noMatchingVariant _ _ _ =>
      some "Check that the consumer attributes are compatible with a published variant"
  | .ambiguousVariant _ _ _ =>
      some "Add a consumer attribute or a schema preference to break the tie"
  | .unusableSettings _ => some "Check the resolution config file for syntax errors"
  | .io _ | .configurationNotFound _ _ _ _ | .nothingSelected _ _ => none

/-- Is the failure due to the declaration of a dependency? -/
def isSelectionFailure : Failure → Bool
  | .noMatchingVariant _ _ _ | .ambiguousVariant _ _ _ | .configurationNotFound _ _ _ _
  | .nothingSelected _ _ => true
  | .io _ | .invalidSelector _ | .unusableSettings _ => false

end Failure
end EdgeResolution
