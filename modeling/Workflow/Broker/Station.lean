/-
A station: where a broker runs, is closed, and is opened again.

The station keeps the settings of its broker, the site while no broker is open, and the requests
that were sent and whose responses were not taken.  Its clock, its log and its store can be
reached whether or not a broker is open.
-/
import Workflow.Broker.Basic
import Workflow.Partition.Form

namespace Workflow

/-- A broker that is open, or the site of one that is closed. -/
inductive Occupation where
  /-- A broker is open. -/
  | broker (b : Broker)
  /-- No broker is open. -/
  | vacant (site : Site)

/-- Why no response is taken. -/
inductive TakeError where
  /-- No such request was sent, or its response was taken. -/
  | noSuchRequest
  /-- The request was dropped. -/
  | responseDropped
deriving DecidableEq, Inhabited

/-- The name of the cause. -/
def TakeError.name : TakeError → String
  | .noSuchRequest => "NoSuchRequest"
  | .responseDropped => "ResponseDropped"

/-- The wording of the cause, if it has any. -/
def TakeError.message? : TakeError → Option String
  | .noSuchRequest => none
  | .responseDropped => some "response channel closed before a response was delivered"

/-- Where a broker runs. -/
structure Station where
  /-- The broker, or the site. -/
  occupation : Occupation
  /-- The settings of the broker. -/
  settings : BrokerSettings := {}
  /-- The requests whose responses were not taken. -/
  requests : List PendingResponse := []

namespace Station

/-- The site with the broker closed. -/
def site (s : Station) : Site :=
  match s.occupation with
  | .broker b => b.close
  | .vacant site => site

/-- What the partition runs on. -/
def host (s : Station) : Host :=
  match s.occupation with
  | .broker b => b.partition.host
  | .vacant site => site.host

/-- The stored operations. -/
def store (s : Station) : StoreLink :=
  match s.occupation with
  | .broker b => b.store
  | .vacant site => site.store

/-- The station with an open broker. -/
def withBroker (s : Station) (b : Broker) : Station := { s with occupation := .broker b }

/-- The station with another host. -/
def withHost (s : Station) (host : Host) : Station :=
  match s.occupation with
  | .broker b => s.withBroker { b with partition := { b.partition with host } }
  | .vacant site => { s with occupation := .vacant { site with host } }

/-- The station with another connection to its log. -/
def withLink (s : Station) (link : LogLink) : Station := s.withHost { s.host with link }

/-- The station with another clock. -/
def withClock (s : Station) (clock : Clock) : Station := s.withHost { s.host with clock }

/-- The station with another store. -/
def withStore (s : Station) (store : StoreLink) : Station :=
  match s.occupation with
  | .broker b => s.withBroker { b with store }
  | .vacant site => { s with occupation := .vacant { site with store } }

/-- Closes the broker. -/
def close (s : Station) : Station := { s with occupation := .vacant s.site }

/-- Closes the broker, if one is open, and opens another with the settings of the station. -/
def «open» (s : Station) : Except PartitionError Broker × Station :=
  match Broker.open s.site s.settings with
  | .ok b => (.ok b, s.withBroker b)
  | .error (e, site) => (.error e, { s with occupation := .vacant site })

/-- Remembers a request, in place of one with the same name. -/
def remember (s : Station) (pending : PendingResponse) : Station :=
  { s with
    requests :=
      pending :: s.requests.filter fun other => other.correlation != pending.correlation }

/--
Takes the response of a request.  A request that waits is answered with nothing, and is forgotten
unless it is kept.
-/
def take (s : Station) (correlation : Correlation) (keep : Bool) :
    Except TakeError (Option Response) × Station :=
  match s.requests.find? fun pending => pending.correlation == correlation with
  | none => (.error .noSuchRequest, s)
  | some pending =>
      let (delivery, router) := s.host.router.take pending.ticket
      let requests := s.requests.filter fun other => other.correlation != correlation
      let taken := { s.withHost { s.host with router } with requests }
      match delivery with
      | .response response => (.ok (some response), taken)
      | .waiting => (.ok none, if keep then s else taken)
      | .dropped => (.error .responseDropped, taken)

/-- Remembers a request if it was sent. -/
def rememberSent (s : Station) (sent : Except PartitionError PendingResponse) : Station :=
  match sent with
  | .ok pending => s.remember pending
  | .error _ => s

/-- Takes out how the rebuild ended that the storage asked for last. -/
def takeRebuild (s : Station) : Option (Except PartitionError Nat) × Station :=
  match s.occupation with
  | .broker b =>
      (b.partition.lastRebuild,
        s.withBroker { b with partition := { b.partition with lastRebuild := none } })
  | .vacant _ => (none, s)

/-- Lets `skip` calls of a kind pass and refuses the `count` calls after them. -/
def refuse (s : Station) (kind : String) (skip count : Nat) : Option Station :=
  let window := Outage.window skip count
  match kind with
  | "append" => some (s.withLink { s.host.link with appends := window })
  | "read" => some (s.withLink { s.host.link with reads := window })
  | "insert" => some (s.withStore { s.store with inserts := window })
  | "fetch" => some (s.withStore { s.store with fetches := window })
  | "update" => some (s.withStore { s.store with updates := window })
  | _ => none

end Station

namespace Broker

/-- The figures of a broker. -/
def figures (b : Broker) : Json :=
  let p := b.partition
  .obj [("partition_id", .nat p.config.partitionId), ("config", p.config.toJson),
    ("now", .instant p.now), ("last_processed", .nullable Json.nat p.cursor.lastProcessed),
    ("needs_recovery", .bool p.cursor.needsRecovery),
    ("pending_requests", .nat p.host.router.pendingCount),
    ("in_flight", .nat b.executor.flights.length)]

end Broker

end Workflow
