/-
How commands get into the log of a partition.

A client sends its requests through a gateway, which numbers them.  A request is registered before
its command is appended; if the append fails the registration is taken back, and the number stays
used up.
-/
import Workflow.Partition.Round

namespace Workflow

namespace Partition

/-- Appends the command of a request and registers the request for its response. -/
def submit (p : Partition) (request : CommandRequest) (correlation : Correlation) :
    Except PartitionError PendingResponse × Partition :=
  match p.host.router.register correlation with
  | .error e => (.error e, p)
  | .ok (ticket, router) =>
      let p := p.withRouter router
      let draft := (request.toDraft.withCorrelation correlation).withTimestamp p.now
      match p.host.link.append draft with
      | (.error e, link) =>
          (.error (.log e), (p.withLink link).withRouter (p.host.router.unregister correlation))
      | (.ok position, link) => (.ok { position, correlation, ticket }, p.withLink link)

/-- Appends a command that expects no response, and tells its position. -/
def submitInternal (p : Partition) (request : CommandRequest) :
    Except PartitionError Nat × Partition :=
  match p.host.link.append (request.toDraft.withTimestamp p.now) with
  | (.error e, link) => (.error (.log e), p.withLink link)
  | (.ok position, link) => (.ok position, p.withLink link)

/-- Takes the response of a request, if it has come. -/
def tryTake (p : Partition) (pending : PendingResponse) : Delivery × Partition :=
  let (delivery, router) := p.host.router.take pending.ticket
  (delivery, p.withRouter router)

end Partition

/-- The requests of one client. -/
structure Gateway where
  /-- The stream of the requests. -/
  streamId : Int
  /-- The number of the next request. -/
  nextRequest : Nat := 1
deriving DecidableEq, Inhabited

/-- Sends a request under the next number. -/
def Gateway.send (gateway : Gateway) (p : Partition) (request : CommandRequest) :
    Except PartitionError PendingResponse × Gateway × Partition :=
  let (result, p) := p.submit request ⟨gateway.streamId, gateway.nextRequest⟩
  (result, { gateway with nextRequest := gateway.nextRequest + 1 }, p)

end Workflow
