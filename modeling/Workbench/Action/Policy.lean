import Workbench.Action.Basic
import Workbench.Fault

/-!
# Policy

The decision whether an action may be applied without review. It depends on
the action and the profile alone.
-/

namespace Workbench.Policy

/-- Diagnostics whose compiler fixes are applied without review. -/
def allowed : List String := ["CS0168", "CS0219", "CS8019"]

/-- The one profile under which cleanup runs. -/
def cleanupProfile : String := "balanced"

def evaluate (a : Action) (profile : String) : Decision :=
  if profile ≠ Action.defaultProfile then
    ⟨.block, "unknown_profile", "unknown policy profile '" ++ profile ++ "'", profile⟩
  else if a.providerKey = BuiltinKind.useInferredType.text then
    ⟨.reviewRequired, "review_required", "rewriting an explicit type to 'var' needs review", profile⟩
  else
    match a.diagnosticId.filter fun id => allowed.contains id && a.category == Action.compilerCategory with
    | some id => ⟨.allow, "allowlisted", "fix for " ++ id ++ " is allowlisted", profile⟩
    | none =>
      ⟨.block, "not_allowlisted",
        a.category ++ " action '" ++ a.providerKey ++ "' is not allowlisted under profile '" ++
          profile ++ "'", profile⟩

def checkCleanupProfile (profile : String) : Result Unit :=
  if profile = cleanupProfile then .ok ()
  else .error (.invalidInput (.unsupportedProfile profile cleanupProfile))

end Workbench.Policy
