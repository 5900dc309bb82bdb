/-
Deployed processes and the instances that run.

Every deployment of a process id is a version of its own.  The catalog keeps them all and knows
the one that was deployed last.
-/
import Workflow.Record.Payload
import Workflow.Sorted.Map

namespace Workflow

/-- A deployed version of a process. -/
structure ProcessDefinition where
  /-- The key of the definition. -/
  key : Nat
  /-- The process id, which all versions share. -/
  processId : String
  /-- The version, from 1. -/
  version : Nat
  /-- The start events that fire on a timer. -/
  timerStarts : List TimerStart
deriving DecidableEq, Inhabited

/-- A running instance of a process. -/
structure ProcessInstance where
  /-- The key of the instance. -/
  key : Nat
  /-- The process id. -/
  processId : String
  /-- The definition that it runs. -/
  definitionKey : Nat
  /-- The version of the definition. -/
  version : Nat
  /-- The start element that created it. -/
  elementId : Option String
deriving DecidableEq, Inhabited

/-- The instance as a payload with variables. -/
def ProcessInstance.toPayload (i : ProcessInstance) (vars : Json) : ProcessInstancePayload :=
  { processId := i.processId, version := i.version, definitionKey := some i.definitionKey,
    instanceKey := some i.key, elementId := i.elementId, vars }

/-- An instance of a definition. -/
def ProcessDefinition.instantiate (definition : ProcessDefinition) (key : Nat)
    (elementId : Option String) : ProcessInstance :=
  { key, processId := definition.processId, definitionKey := definition.key,
    version := definition.version, elementId }

/-- The deployed processes and their instances. -/
structure ProcessCatalog where
  /-- The definitions by key. -/
  definitions : SortedMap Nat ProcessDefinition
  /-- The key of the definition that was deployed last, by process id. -/
  latestById : SortedMap String Nat
  /-- The instances by key. -/
  instances : SortedMap Nat ProcessInstance

namespace ProcessCatalog

/-- The catalog without processes. -/
def empty : ProcessCatalog := ⟨.empty, .empty, .empty⟩

instance : Inhabited ProcessCatalog := ⟨empty⟩

/-- Adds a definition, which becomes the latest of its process id. -/
def deploy (catalog : ProcessCatalog) (definition : ProcessDefinition) : ProcessCatalog :=
  { catalog with
    latestById := catalog.latestById.insert definition.processId definition.key
    definitions := catalog.definitions.insert definition.key definition }

/-- The definition with a key. -/
def definition? (catalog : ProcessCatalog) (key : Nat) : Option ProcessDefinition :=
  catalog.definitions.get? key

/-- The latest definition of a process id. -/
def latest? (catalog : ProcessCatalog) (processId : String) : Option ProcessDefinition :=
  (catalog.latestById.get? processId).bind catalog.definition?

/-- The keys of the definitions of a process id, in key order. -/
def versionsOf (catalog : ProcessCatalog) (processId : String) : List Nat :=
  (catalog.definitions.values.filter fun definition => definition.processId == processId).map
    ProcessDefinition.key

/-- Adds an instance. -/
def addInstance (catalog : ProcessCatalog) (i : ProcessInstance) : ProcessCatalog :=
  { catalog with instances := catalog.instances.insert i.key i }

/-- The instance with a key. -/
def instance? (catalog : ProcessCatalog) (key : Nat) : Option ProcessInstance :=
  catalog.instances.get? key

/-- The instances in key order. -/
def allInstances (catalog : ProcessCatalog) : List ProcessInstance := catalog.instances.values

end ProcessCatalog

end Workflow
