/-
Requests and the responses they wait for.

A client names its request by a stream and a number.  When the request is registered it gets a
ticket, and the ticket is what its response is taken with; a ticket is used for one request only,
even when a later request has the same name.  A response is delivered at most once, and it can be
taken at most once.
-/
import Workflow.Engine.Response
import Workflow.Partition.Error

namespace Workflow

/-- A command as a client gives it. -/
structure CommandRequest where
  /-- The entity that it is addressed to. -/
  key : Option Nat := none
  /-- What is asked for. -/
  intent : Intent
  /-- The payload. -/
  value : Payload
deriving DecidableEq, Inhabited

/-- The command of a request, without a time. -/
def CommandRequest.toDraft (request : CommandRequest) : Draft :=
  Draft.command request.key request.intent request.value

/-- What a ticket is worth. -/
inductive Delivery where
  /-- The response is there. -/
  | response (response : Response)
  /-- The request waits. -/
  | waiting
  /-- No response will come. -/
  | dropped
deriving DecidableEq, Inhabited

/-- The requests that wait, and the responses that are not taken yet. -/
structure ResponseRouter where
  /-- The requests that wait, with their tickets. -/
  waiting : List (Correlation × Nat) := []
  /-- The responses that are not taken yet, by ticket. -/
  delivered : List (Nat × Response) := []
  /-- How many tickets were handed out. -/
  issued : Nat := 0
deriving DecidableEq, Inhabited

namespace ResponseRouter

/-- How many requests wait. -/
def pendingCount (router : ResponseRouter) : Nat := router.waiting.length

/-- Registers a request, unless one of the same name waits. -/
def register (router : ResponseRouter) (correlation : Correlation) :
    Except PartitionError (Nat × ResponseRouter) :=
  match router.waiting.lookup correlation with
  | some _ => .error (.duplicateRequest correlation)
  | none =>
      .ok (router.issued,
        { router with
          waiting := (correlation, router.issued) :: router.waiting
          issued := router.issued + 1 })

/-- Takes a request back. -/
def unregister (router : ResponseRouter) (correlation : Correlation) : ResponseRouter :=
  { router with waiting := router.waiting.filter fun entry => entry.1 != correlation }

/-- Delivers a response to the request that waits for it; without one the response is lost. -/
def deliver (router : ResponseRouter) (response : Response) : ResponseRouter :=
  match router.waiting.lookup response.correlation with
  | none => router
  | some ticket =>
      { router.unregister response.correlation with
        delivered := (ticket, response) :: router.delivered }

/-- Takes the response of a ticket, if it has come. -/
def take (router : ResponseRouter) (ticket : Nat) : Delivery × ResponseRouter :=
  match router.delivered.lookup ticket with
  | some response =>
      (.response response,
        { router with delivered := router.delivered.filter fun entry => entry.1 != ticket })
  | none =>
      let waits := router.waiting.any fun entry => entry.2 == ticket
      (if waits then .waiting else .dropped, router)

/-- Drops all requests that wait; responses that have come can still be taken. -/
def dropWaiting (router : ResponseRouter) : ResponseRouter := { router with waiting := [] }

end ResponseRouter

/-- A request that was sent. -/
structure PendingResponse where
  /-- The position of its command. -/
  position : Nat
  /-- The name of the request. -/
  correlation : Correlation
  /-- The ticket of the request. -/
  ticket : Nat
deriving DecidableEq, Inhabited

end Workflow
