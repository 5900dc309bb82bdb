/-
Operations whose commands were sent.

A flight keeps the requests of one operation and the responses that came so far.  When all have
come the operation is completed, or failed with the reason of the first rejection.  A request that
will get no response fails the operation at once.
-/
import Workflow.Operation.Basic
import Workflow.Partition.Client

namespace Workflow

/-- How a sent operation ends. -/
inductive Settlement where
  /-- Every command was accepted. -/
  | completed
  /-- It failed, with this message. -/
  | failed (message : String)
deriving DecidableEq, Inhabited

/-- One piece of work on an operation. -/
inductive OperationTask where
  /-- Send the commands of a scheduled operation. -/
  | dispatch (operation : Operation)
  /-- Write down how a sent operation ended. -/
  | settle (operation : Operation) (settlement : Settlement)
deriving DecidableEq, Inhabited

/-- The commands of one operation and the responses to them. -/
structure Flight where
  /-- The jobs that commands were sent for. -/
  jobKeys : List Nat
  /-- The requests that wait. -/
  waiting : List PendingResponse
  /-- The responses that came. -/
  responses : List Response := []
  /-- Whether some request will get no response. -/
  lost : Bool := false
deriving DecidableEq, Inhabited

namespace Flight

/-- Takes the responses that have come for a list of requests. -/
def collect : List PendingResponse → Flight → ResponseRouter → Flight × ResponseRouter
  | [], flight, router => (flight, router)
  | pending :: rest, flight, router =>
      let (delivery, router) := router.take pending.ticket
      let flight := match delivery with
        | .waiting => { flight with waiting := flight.waiting ++ [pending] }
        | .response response => { flight with responses := flight.responses ++ [response] }
        | .dropped => { flight with lost := true }
      collect rest flight router

/-- The message of an operation that lost a response. -/
def lostMessage : String := "Response for a sent command was lost."

/-- How the operation ends, once that is known. -/
def settlement? (flight : Flight) : Option Settlement :=
  if flight.lost then some (.failed lostMessage)
  else if !flight.waiting.isEmpty then none
  else
    match flight.responses.find? Response.isRejection with
    | some rejection => some (.failed rejection.rejectionReason)
    | none => some .completed

/-- Takes the responses that have come. -/
def poll (flight : Flight) (router : ResponseRouter) : Flight × ResponseRouter :=
  collect flight.waiting { flight with waiting := [] } router

end Flight

end Workflow
