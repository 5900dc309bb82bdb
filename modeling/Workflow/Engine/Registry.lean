/-
The handlers of an engine, by the command they are for.

A command is a value type with one of its intents.  Each has at most one handler; the registry is
made once, before an engine runs.
-/
import Workflow.Engine.Decide.Job
import Workflow.Engine.Decide.Timer

namespace Workflow

/-- Why a handler is not registered. -/
inductive RegistryError where
  /-- The command has a handler. -/
  | alreadyRegistered (valueType : ValueType) (intent : Intent)
  /-- The intent belongs to another value type. -/
  | mismatchedIntent (valueType : ValueType) (intent : Intent)
deriving DecidableEq, Inhabited

/-- The name of the cause. -/
def RegistryError.name : RegistryError → String
  | .alreadyRegistered _ _ => "AlreadyRegistered"
  | .mismatchedIntent _ _ => "MismatchedIntent"

/-- The wording of the cause. -/
def RegistryError.message : RegistryError → String
  | .alreadyRegistered valueType intent =>
      s!"handler already registered for {valueType.name} {intent.name}"
  | .mismatchedIntent valueType intent =>
      s!"intent {intent.name} does not belong to value type {valueType.name}"

/-- The handlers of an engine. -/
structure Registry where
  /-- Each command with its handler. -/
  handlers : List ((ValueType × Intent) × Handler)

namespace Registry

/-- The registry without handlers. -/
def empty : Registry := ⟨[]⟩

instance : Inhabited Registry := ⟨empty⟩

/-- The handler of a command. -/
def get? (registry : Registry) (valueType : ValueType) (intent : Intent) : Option Handler :=
  registry.handlers.lookup (valueType, intent)

/-- Whether a command has a handler. -/
def contains (registry : Registry) (valueType : ValueType) (intent : Intent) : Bool :=
  (registry.get? valueType intent).isSome

/-- How many commands have a handler. -/
def size (registry : Registry) : Nat := registry.handlers.length

/-- The built-in policies, each with the intent it is for. -/
def builtinPolicies : List (Intent × Policy) :=
  [(.deployment .create, Decide.deploy), (.processInstance .create, Decide.createInstance),
    (.timer .create, Decide.createTimer), (.timer .trigger, Decide.triggerTimer),
    (.timer .cancel, Decide.cancelTimer), (.job .create, Decide.createJob),
    (.jobBatch .activate, Decide.activateJobs), (.job .complete, Decide.completeJob),
    (.job .fail, Decide.failJob), (.job .timeOut, Decide.timeOutJob),
    (.job .updateRetries, Decide.updateJobRetries), (.job .cancel, Decide.cancelJob)]

/-- The registry of the built-in handlers. -/
def builtin : Registry :=
  ⟨builtinPolicies.map fun (intent, policy) => ((intent.valueType, intent), policy.handler)⟩

/-- Registers a handler for a command that has none. -/
def register (registry : Registry) (valueType : ValueType) (intent : Intent) (handler : Handler) :
    Except RegistryError Registry :=
  if intent.valueType ≠ valueType then .error (.mismatchedIntent valueType intent)
  else if registry.contains valueType intent then .error (.alreadyRegistered valueType intent)
  else .ok ⟨registry.handlers ++ [((valueType, intent), handler)]⟩

/-- The names of the commands that have a handler, in ascending order. -/
def commandNames (registry : Registry) : List String :=
  (registry.handlers.map fun entry => s!"{entry.1.1.name} {entry.1.2.name}").mergeSort
    fun a b => decide (a ≤ b)

end Registry

end Workflow
