/-
Sending a command through a gateway or without one has the same lasting effect.

`unasked` is a partition without all that has to do with who asked: no request waits, no response is
kept, and the records of the log name no request.  Whatever a partition does, the partition without
that does too (the `_unasked` lemmas), when every request that it takes is put in as a command that
expects no response.  So a run and the run of its commands without their requests end in the same
partition but for that (`runAll_unasked`).

One step needs an invariant.  A replay compares what it produces with what the log holds, and two
lists that differ may be the same without the requests; but a partition that agrees with its log
(`Sourced`) is always rebuilt, and a replay that succeeds does so whoever asked.
-/
import Workflow.Proofs.Engine.Unasked
import Workflow.Proofs.Partition.Recast
import Workflow.Proofs.Partition.Run

namespace Workflow

/-! ### The log -/

namespace Log

/-- The log without the requests that its records came from. -/
def unasked (log : Log) : Log := { log with records := log.records.map Record.unasked }

@[simp] theorem size_unasked (log : Log) : log.unasked.size = log.size := List.length_map _

theorem numbered_unasked (drafts : List Draft) :
    ∀ position, numbered position (drafts.map Draft.unasked) =
      (numbered position drafts).map Record.unasked := by
  induction drafts with
  | nil => intro position; rfl
  | cons draft rest ih =>
      intro position
      simp only [List.map_cons, numbered, ih]
      rfl

theorem appendBatch_unasked (log : Log) (drafts : List Draft) :
    log.unasked.appendBatch (drafts.map Draft.unasked) =
      ((log.appendBatch drafts).1, (log.appendBatch drafts).2.unasked) := by
  obtain ⟨records, refusals⟩ := log
  cases refusals with
  | succ left => rfl
  | zero =>
      have hsize := size_unasked ⟨records, 0⟩
      simp only [appendBatch, unasked] at hsize ⊢
      simp only [hsize, numbered_unasked, List.map_map, List.map_append]
      rfl

theorem append_unasked (log : Log) (draft : Draft) :
    log.unasked.append draft.unasked =
      ((log.append draft).1, (log.append draft).2.unasked) := by
  have hbatch : log.unasked.appendBatch [draft.unasked] = _ := log.appendBatch_unasked [draft]
  unfold append
  rw [hbatch, size_unasked]

end Log

namespace LogLink

/-- The connection to the log without the requests. -/
def unasked (link : LogLink) : LogLink := { link with log := link.log.unasked }

/-- An append is refused on its way, or the log takes it, whoever asked. -/
theorem guardAppend_unasked {α : Type} (link : LogLink)
    {action action' : Log → Except LogError α × Log}
    (h : action' link.log.unasked = ((action link.log).1, (action link.log).2.unasked)) :
    link.unasked.guardAppend action' =
      ((link.guardAppend action).1, (link.guardAppend action).2.unasked) := by
  unfold guardAppend
  dsimp only [unasked]
  cases link.appends.next.1 with
  | true => rfl
  | false =>
      simp only [Bool.false_eq_true, if_false]
      rw [h]

theorem appendBatch_unasked (link : LogLink) (drafts : List Draft) :
    link.unasked.appendBatch (drafts.map Draft.unasked) =
      ((link.appendBatch drafts).1, (link.appendBatch drafts).2.unasked) :=
  link.guardAppend_unasked (link.log.appendBatch_unasked drafts)

theorem append_unasked (link : LogLink) (draft : Draft) :
    link.unasked.append draft.unasked =
      ((link.append draft).1, (link.append draft).2.unasked) :=
  link.guardAppend_unasked (link.log.append_unasked draft)

theorem readAfter_unasked (link : LogLink) (after : Option Nat) (limit : Nat) :
    link.unasked.readAfter after limit =
      ((link.readAfter after limit).1.map (List.map Record.unasked),
        (link.readAfter after limit).2.unasked) := by
  unfold readAfter
  dsimp only [unasked]
  cases link.reads.next.1 with
  | true => rfl
  | false =>
      simp only [Bool.false_eq_true, if_false, Log.readAfter, Log.unasked, Except.map,
        List.map_take, List.map_drop]

theorem readRest_unasked (reads : Nat) :
    ∀ (link : LogLink) (after : Option Nat),
      readRest reads link.unasked after =
        ((readRest reads link after).1.map (List.map Record.unasked),
          (readRest reads link after).2.unasked) := by
  induction reads with
  | zero => intro link after; rfl
  | succ reads ih =>
      intro link after
      unfold readRest
      rw [readAfter_unasked]
      rcases link.readAfter after chunkSize with ⟨e | chunk, link₁⟩
      · rfl
      · dsimp only [Except.map]
        rw [List.getLast?_map]
        cases chunk.getLast? with
        | none => rfl
        | some last =>
            dsimp only [Option.map, Record.position_unasked]
            rw [ih]
            rcases readRest reads link₁ (some last.position) with ⟨e | rest, link₂⟩
            · rfl
            · dsimp only [Except.map]
              rw [List.map_append]

theorem readCommandsFrom_unasked (reads : Nat) :
    ∀ (link : LogLink) (after : Option Nat) (max : Nat),
      readCommandsFrom reads link.unasked after max =
        ((readCommandsFrom reads link after max).1.map (List.map Record.unasked),
          (readCommandsFrom reads link after max).2.unasked) := by
  induction reads with
  | zero => intro link after max; rfl
  | succ reads ih =>
      intro link after max
      cases max with
      | zero => rfl
      | succ max =>
          unfold readCommandsFrom
          rw [readAfter_unasked]
          rcases link.readAfter after chunkSize with ⟨e | chunk, link₁⟩
          · rfl
          · have hfound : ((chunk.map Record.unasked).filter Record.isCommand).take (max + 1) =
                ((chunk.filter Record.isCommand).take (max + 1)).map Record.unasked := by
              rw [List.filter_map, List.map_take]
              rfl
            dsimp only [Except.map]
            rw [List.getLast?_map, hfound, List.length_map]
            cases chunk.getLast? with
            | none => rfl
            | some last =>
                dsimp only [Option.map, Record.position_unasked]
                rw [ih]
                rcases readCommandsFrom reads link₁ (some last.position) (max + 1 -
                  ((chunk.filter Record.isCommand).take (max + 1)).length) with ⟨e | rest, link₂⟩
                · rfl
                · dsimp only [Except.map]
                  rw [List.map_append]

theorem readAll_unasked (link : LogLink) :
    link.unasked.readAll =
      (link.readAll.1.map (List.map Record.unasked), link.readAll.2.unasked) := by
  unfold readAll
  rw [show link.unasked.log.size = link.log.size from link.log.size_unasked]
  exact readRest_unasked _ link none

theorem readCommands_unasked (link : LogLink) (after : Option Nat) (max : Nat) :
    link.unasked.readCommands after max =
      ((link.readCommands after max).1.map (List.map Record.unasked),
        (link.readCommands after max).2.unasked) := by
  unfold readCommands
  rw [show link.unasked.log.size = link.log.size from link.log.size_unasked]
  exact readCommandsFrom_unasked _ link after max

end LogLink

/-! ### Replays -/

namespace Recovery

variable (records : List Record)

theorem lastSource?_unasked : lastSource? (records.map Record.unasked) = lastSource? records := by
  unfold lastSource?
  rw [List.filterMap_map]
  rfl

theorem appliedCommands_unasked :
    appliedCommands (records.map Record.unasked) =
      (appliedCommands records).map Record.unasked := by
  unfold appliedCommands
  rw [lastSource?_unasked, List.filter_map]
  rfl

theorem followUpsOf_unasked (position : Nat) :
    followUpsOf (records.map Record.unasked) position =
      (followUpsOf records position).map Draft.unasked := by
  unfold followUpsOf
  rw [List.filter_map, List.map_map, List.map_map]
  rfl

/-- **A replay that succeeds does so whoever asked**, and ends in the same state. -/
theorem replay_unasked (commands : List Record) :
    ∀ (processor : Processor) {count : Nat} {final : Processor},
      processor.registry = .builtin →
      replay records commands processor = (.ok count, final) →
      replay (records.map Record.unasked) (commands.map Record.unasked) processor =
        (.ok count, final) := by
  induction commands with
  | nil => intro processor count final _ hok; exact hok
  | cons command rest ih =>
      intro processor count final hbuiltin hok
      have hzeros : ∀ drafts : List Draft, (drafts.map Draft.unasked).map Draft.plainZeros =
          (drafts.map Draft.plainZeros).map Draft.unasked := by
        intro drafts
        rw [List.map_map, List.map_map]
        rfl
      simp only [replay] at hok
      simp only [List.map_cons, replay, Processor.apply_unasked hbuiltin, Record.position_unasked,
        followUpsOf_unasked, hzeros]
      by_cases hsame : (processor.apply command).1.followUps.map Draft.plainZeros =
          (followUpsOf records command.position).map Draft.plainZeros
      · rw [if_pos hsame] at hok
        rw [if_pos (congrArg (List.map Draft.unasked) hsame)]
        rcases hrest : replay records rest (processor.apply command).2 with ⟨e | left, last⟩
        · rw [hrest] at hok
          cases hok
        · rw [hrest] at hok
          rw [ih (processor.apply command).2 hbuiltin hrest]
          exact hok
      · rw [if_neg hsame] at hok
        cases hok

end Recovery

/-! ### The partition -/

/-- The host without requests, responses, and the requests that records came from. -/
def Host.unasked (host : Host) : Host := { host with link := host.link.unasked, router := {} }

namespace Partition

variable {evaluator : Evaluator} {p q : Partition}

/-- The partition on the host without them. -/
def unasked (p : Partition) : Partition := { p with host := p.host.unasked }

theorem recover_unasked (hbuiltin : p.processor.registry = .builtin) {count : Nat}
    (hok : p.recover = (.ok count, q)) : p.unasked.recover = (.ok count, q.unasked) := by
  have hread : p.unasked.host.link.readAll = _ := p.host.link.readAll_unasked
  unfold recover at hok ⊢
  rw [hread]
  rcases hall : p.host.link.readAll with ⟨e | records, link⟩
  · rw [hall] at hok
    cases hok
  · rw [hall] at hok
    dsimp only [Except.map] at hok ⊢
    rw [Recovery.appliedCommands_unasked, Recovery.lastSource?_unasked]
    rcases hreplay : Recovery.replay records (Recovery.appliedCommands records)
      (p.withLink link).processor.reset with ⟨e | applied, processor⟩
    · rw [hreplay] at hok
      cases hok
    · have hreplay' := Recovery.replay_unasked records (Recovery.appliedCommands records)
        (p.withLink link).processor.reset hbuiltin hreplay
      have hreset : (p.unasked.withLink link.unasked).processor.reset =
          (p.withLink link).processor.reset := rfl
      rw [hreplay] at hok
      rw [hreset, hreplay']
      cases hok
      rfl

theorem recoverIfNeeded_unasked (h : Sourced evaluator p) :
    p.unasked.recoverIfNeeded = (p.recoverIfNeeded.1, p.recoverIfNeeded.2.unasked) := by
  have hneeded : p.unasked.cursor.needsRecovery = p.cursor.needsRecovery := rfl
  obtain ⟨calls, heq⟩ := h.recover_eq rfl h.readable h.reset
  unfold recoverIfNeeded
  rw [hneeded, recover_unasked h.builtin heq, heq]
  cases p.cursor.needsRecovery <;> rfl

theorem appendBatch_unasked (hcalm : p.host.link.rebuildDue = false) (applying : Bool)
    (drafts : List Draft) :
    p.unasked.appendBatch applying (drafts.map Draft.unasked) =
      ((p.appendBatch applying drafts).1, (p.appendBatch applying drafts).2.unasked) := by
  have hplain : p.rebuildIfDue applying = p := by simp [rebuildIfDue, hcalm]
  have hplain' : p.unasked.rebuildIfDue applying = p.unasked := by
    have hcalm' : p.unasked.host.link.rebuildDue = false := hcalm
    simp [rebuildIfDue, hcalm']
  have hlink : p.unasked.host.link.appendBatch (drafts.map Draft.unasked) = _ :=
    p.host.link.appendBatch_unasked drafts
  unfold appendBatch
  rw [hplain, hplain']
  dsimp only
  rw [hlink]
  rcases p.host.link.appendBatch drafts with ⟨e | positions, link⟩ <;> rfl

/-- No requests, as a change to the host. -/
def noRequests : Recast := { link := LogLink.unasked, router := fun _ => {} }

theorem checkDueTimers_unasked (hcalm : p.host.link.rebuildDue = false) :
    p.unasked.checkDueTimers = (p.checkDueTimers.1, p.checkDueTimers.2.unasked) := by
  have hcommands : (p.untriggered.map (triggerCommand p.now)).map Draft.unasked =
      p.untriggered.map (triggerCommand p.now) := List.map_map
  have happend := appendBatch_unasked (p := p.withTriggers) hcalm false
    (p.untriggered.map (triggerCommand p.now))
  rw [hcommands] at happend
  exact checkDueTimers_on noRequests happend

theorem sweepExpiredLeases_unasked (hcalm : p.host.link.rebuildDue = false) :
    p.unasked.sweepExpiredLeases = (p.sweepExpiredLeases.1, p.sweepExpiredLeases.2.unasked) := by
  have hcommands : (p.swept.map Prod.snd).map Draft.unasked = p.swept.map Prod.snd := by
    rw [List.map_map]
    refine List.map_congr_left fun entry hentry => ?_
    obtain ⟨-, job, -, hdraft⟩ := mem_swept hentry
    show entry.2.unasked = entry.2
    rw [hdraft]
    rfl
  have happend := appendBatch_unasked (p := p.withTimeouts) hcalm false (p.swept.map Prod.snd)
  rw [hcommands] at happend
  exact sweepExpiredLeases_on noRequests happend

theorem readUnprocessed_unasked (p : Partition) (max : Nat) :
    p.unasked.readUnprocessed max =
      ((p.readUnprocessed max).1.map (List.map Record.unasked),
        (p.readUnprocessed max).2.unasked) := by
  have hread : p.unasked.host.link.readCommands p.unasked.cursor.lastProcessed max = _ :=
    p.host.link.readCommands_unasked p.cursor.lastProcessed max
  unfold readUnprocessed
  rw [hread]
  rcases p.host.link.readCommands p.cursor.lastProcessed max with ⟨e | commands, link⟩ <;> rfl

theorem applyCommand_unasked (hbuiltin : p.processor.registry = .builtin)
    (hcalm : p.host.link.rebuildDue = false) (command : Record) :
    p.unasked.applyCommand command.unasked =
      ((p.applyCommand command).1, (p.applyCommand command).2.unasked) := by
  have hdeliver : ∀ (q : Partition) (response : Option Response),
      q.unasked.deliver none = (q.deliver response).unasked := by
    intro q response
    cases response <;> rfl
  have happend := appendBatch_unasked (p := { p with processor := (p.processor.apply command).2 })
    hcalm true (p.processor.apply command).1.followUps
  exact applyCommand_on noRequests rfl (Processor.apply_unasked hbuiltin command) rfl
    List.isEmpty_map happend fun q => hdeliver q _

theorem applyCommands_unasked (hbuiltin : p.processor.registry = .builtin)
    (hcalm : p.host.link.rebuildDue = false) (commands : List Record) :
    applyCommands (commands.map Record.unasked) p.unasked =
      ((applyCommands commands p).1, (applyCommands commands p).2.unasked) := by
  have hstep : ∀ (p : Partition) (command : Record),
      p.processor.registry = .builtin ∧ p.host.link.rebuildDue = false →
      p.unasked.applyCommand command.unasked =
          ((p.applyCommand command).1, (p.applyCommand command).2.unasked) ∧
        (p.applyCommand command).2.processor.registry = .builtin ∧
        (p.applyCommand command).2.host.link.rebuildDue = false := by
    rintro p command ⟨hbuiltin, hcalm⟩
    obtain ⟨hkept, hregistry⟩ := applyCommand_kept hcalm command
    exact ⟨applyCommand_unasked hbuiltin hcalm command, hregistry.trans hbuiltin, hkept⟩
  exact applyCommands_on noRequests Record.position_unasked Record.isCommand_unasked hstep commands
    p ⟨hbuiltin, hcalm⟩

/-! ### Rounds -/

theorem prepareRound_unasked (h : Sourced evaluator p)
    (hid : p.config.partitionId ≤ maxPartitionId) (max : Nat) :
    p.unasked.prepareRound max =
      ((p.prepareRound max).1.map (List.map Record.unasked), (p.prepareRound max).2.unasked) := by
  obtain ⟨p₁, hrecover, hmoves, -⟩ := recoverIfNeeded_steady h
  obtain ⟨h₁, hsame⟩ := h.moves hid hmoves.moves
  have hmove : Move evaluator p₁ p₁.checkDueTimers.2 := .timers
  obtain ⟨h₂, -⟩ := h₁.move (by rw [hsame]; exact hid) hmove
  unfold prepareRound
  rw [recoverIfNeeded_unasked h, hrecover]
  dsimp only
  rw [checkDueTimers_unasked h₁.calm]
  rcases htimers : p₁.checkDueTimers with ⟨e | _, p₂⟩
  · rfl
  · rw [htimers] at h₂
    dsimp only at h₂ ⊢
    rw [sweepExpiredLeases_unasked h₂.calm]
    rcases p₂.sweepExpiredLeases with ⟨e | _, p₃⟩
    · rfl
    · exact p₃.readUnprocessed_unasked max

theorem processCommands_unasked (h : Sourced evaluator p)
    (hid : p.config.partitionId ≤ maxPartitionId) (commands : List Record) :
    p.unasked.processCommands (commands.map Record.unasked) =
      ((p.processCommands commands).1, (p.processCommands commands).2.unasked) := by
  obtain ⟨p₁, hrecover, hmoves, -⟩ := recoverIfNeeded_steady h
  obtain ⟨h₁, -⟩ := h.moves hid hmoves.moves
  unfold processCommands
  rw [recoverIfNeeded_unasked h, hrecover]
  exact applyCommands_unasked h₁.builtin h₁.calm commands

end Partition

/-! ### What arrives -/

namespace Arrival

/-- What arrives when a request is put in as a command that expects no response.  A request whose
name waits already is refused without a trace, and who asks for a response leaves none. -/
def unasked (p : Partition) : Arrival → Option Arrival
  | .submit request correlation =>
      if (p.host.router.waiting.lookup correlation).isSome then none
      else some (.submitInternal request)
  | .take _ => none
  | arrival => some arrival

/-- The same for arrivals one after the other. -/
def unaskedAll : Partition → List Arrival → List Arrival
  | _, [] => []
  | p, arrival :: rest => (arrival.unasked p).toList ++ unaskedAll (arrival.run p) rest

theorem run_unasked (arrival : Arrival) (p : Partition) :
    (arrival.unasked p).toList.foldl run p.unasked = (arrival.run p).unasked := by
  have hinternal : ∀ (q : Partition) (request : CommandRequest),
      (q.submitInternal request).2 =
        q.withLink (q.host.link.append (request.toDraft.withTimestamp q.now)).2 := by
    intro q request
    unfold Partition.submitInternal
    rcases q.host.link.append (request.toDraft.withTimestamp q.now) with ⟨e | position, link⟩ <;>
      rfl
  cases arrival with
  | submit request correlation =>
      show _ = (p.submit request correlation).2.unasked
      cases hwaits : p.host.router.waiting.lookup correlation with
      | some ticket =>
          have hnone : (submit request correlation).unasked p = none := by
            simp only [unasked, hwaits, Option.isSome_some, if_true]
          rw [hnone]
          simp only [Partition.submit, ResponseRouter.register, hwaits]
          rfl
      | none =>
          have hsome : (submit request correlation).unasked p = some (.submitInternal request) := by
            simp only [unasked, hwaits, Option.isSome_none, Bool.false_eq_true, if_false]
          have happend : p.unasked.host.link.append (request.toDraft.withTimestamp p.unasked.now) =
              _ := p.host.link.append_unasked
                ((request.toDraft.withCorrelation correlation).withTimestamp p.now)
          rw [hsome]
          show (p.unasked.submitInternal request).2 = _
          rw [hinternal, happend]
          simp only [Partition.submit, ResponseRouter.register, hwaits, Partition.withRouter,
            Partition.now]
          rcases p.host.link.append
            ((request.toDraft.withCorrelation correlation).withTimestamp p.host.clock.now)
            with ⟨e | position, link⟩ <;> rfl
  | submitInternal request =>
      have happend : p.unasked.host.link.append (request.toDraft.withTimestamp p.unasked.now) = _ :=
        p.host.link.append_unasked (request.toDraft.withTimestamp p.now)
      show (p.unasked.submitInternal request).2 = (p.submitInternal request).2.unasked
      rw [hinternal, hinternal, happend]
      rfl
  | take pending => rfl
  | setClock clock => rfl
  | outage appends => rfl
  | refuseNext count => rfl

theorem arrive_unasked (arrivals : List Arrival) :
    ∀ p : Partition, (unaskedAll p arrivals).foldl run p.unasked =
      (arrivals.foldl run p).unasked := by
  induction arrivals with
  | nil => intro p; rfl
  | cons arrival rest ih =>
      intro p
      rw [unaskedAll, List.foldl_append, run_unasked, ih, List.foldl_cons]

end Arrival

/-! ### Runs -/

namespace Partition

variable {evaluator : Evaluator} {p q : Partition}

theorem runBatch_unasked (h : Sourced evaluator p) (hid : p.config.partitionId ≤ maxPartitionId)
    (max : Nat) (arrivals : List Arrival) :
    p.unasked.runBatch max (Arrival.unaskedAll (p.prepareRound max).2 arrivals) =
      ((p.runBatch max arrivals).1, (p.runBatch max arrivals).2.unasked) := by
  obtain ⟨result, p₁, hprepare, hmoves, -⟩ := prepareRound_moves h hid max
  obtain ⟨h₁, hsame₁⟩ := h.moves hid hmoves
  have hid₁ : p₁.config.partitionId ≤ maxPartitionId := by rw [hsame₁]; exact hid
  obtain ⟨harrive, -, -⟩ := Arrival.moves h₁ hid₁ arrivals
  obtain ⟨h₂, hsame₂⟩ := h₁.moves hid₁ harrive
  unfold runBatch
  rw [prepareRound_unasked h hid, hprepare]
  cases result with
  | error e => rfl
  | ok commands =>
      dsimp only [Except.map]
      rw [Arrival.arrive_unasked]
      exact processCommands_unasked h₂ (by rw [hsame₂]; exact hid₁) commands

theorem processRound_unasked (h : Sourced evaluator p)
    (hid : p.config.partitionId ≤ maxPartitionId) :
    p.unasked.processRound = (p.processRound.1, p.processRound.2.unasked) :=
  runBatch_unasked h hid p.config.maxCommandsPerRound []

theorem processUntilIdle_unasked (rounds : Nat) :
    ∀ p : Partition, Sourced evaluator p → p.config.partitionId ≤ maxPartitionId →
      processUntilIdle rounds p.unasked =
        ((processUntilIdle rounds p).1, (processUntilIdle rounds p).2.unasked) := by
  induction rounds with
  | zero => intro p _ _; rfl
  | succ rounds ih =>
      intro p h hid
      obtain ⟨hmoves, -⟩ := processRound_steady h hid
      obtain ⟨h₁, hsame⟩ := h.moves hid hmoves.moves
      unfold processUntilIdle
      rw [processRound_unasked h hid]
      rcases hround : p.processRound with ⟨e | _ | count, p₁⟩
      · rfl
      · rfl
      · rw [hround] at h₁ hsame
        simp only [ih p₁ h₁ (by rw [hsame]; exact hid)]

/-- A partition is opened when its identifier is allowed and its state is rebuilt. -/
theorem open_eq_ok_iff {host : Host} {config : PartitionConfig} :
    Partition.open host .builtin evaluator config = .ok p ↔
      config.partitionId ≤ maxPartitionId ∧
        ∃ count, (unbuilt host evaluator config).recover = (.ok count, p) := by
  unfold Partition.open
  by_cases hlarge : maxPartitionId < config.partitionId
  · rw [if_pos hlarge]
    exact ⟨nofun, fun h => absurd h.1 (Nat.not_le_of_lt hlarge)⟩
  · rw [if_neg hlarge]
    unfold unbuilt
    generalize Partition.recover _ = result
    rcases result with ⟨e | count, q⟩
    · exact ⟨nofun, nofun⟩
    · constructor
      · intro h
        cases h
        exact ⟨Nat.le_of_not_lt hlarge, count, rfl⟩
      · rintro ⟨-, _, h⟩
        cases h
        rfl

theorem open_unasked {host : Host} {config : PartitionConfig}
    (hopen : Partition.open host .builtin evaluator config = .ok p) :
    Partition.open host.unasked .builtin evaluator config = .ok p.unasked := by
  obtain ⟨hid, count, hrecover⟩ := open_eq_ok_iff.mp hopen
  exact open_eq_ok_iff.mpr ⟨hid, count, recover_unasked rfl hrecover⟩

end Partition

namespace PartitionAction

variable {evaluator : Evaluator} {p : Partition}

/-- What is done when requests are put in as commands that expect no response. -/
def unasked (p : Partition) : PartitionAction → Option PartitionAction
  | .arrive arrival => (arrival.unasked p).map .arrive
  | .runBatch max arrivals =>
      some (.runBatch max (Arrival.unaskedAll (p.prepareRound max).2 arrivals))
  | action => some action

/-- The same for a run. -/
def unaskedAll (evaluator : Evaluator) : Partition → List PartitionAction → List PartitionAction
  | _, [] => []
  | p, action :: rest =>
      (action.unasked p).toList ++ unaskedAll evaluator (action.run evaluator p) rest

/-- **One action**, with or without requests. -/
theorem run_unasked (h : p.Sourced evaluator) (hid : p.config.partitionId ≤ maxPartitionId)
    (action : PartitionAction) :
    (action.unasked p).toList.foldl (run evaluator) p.unasked =
      (action.run evaluator p).unasked := by
  cases action with
  | arrive arrival =>
      have hone := arrival.run_unasked p
      show ((arrival.unasked p).map PartitionAction.arrive).toList.foldl _ _ = _
      cases harrival : arrival.unasked p <;> (rw [harrival] at hone; exact hone)
  | prepareRound max => exact congrArg Prod.snd (Partition.prepareRound_unasked h hid max)
  | processRound => exact congrArg Prod.snd (Partition.processRound_unasked h hid)
  | runBatch max arrivals => exact congrArg Prod.snd (Partition.runBatch_unasked h hid max arrivals)
  | processUntilIdle rounds =>
      exact congrArg Prod.snd (Partition.processUntilIdle_unasked rounds p h hid)
  | recover =>
      obtain ⟨calls, heq⟩ := h.recover_eq rfl h.readable h.reset
      show p.unasked.recover.2 = p.recover.2.unasked
      rw [Partition.recover_unasked h.builtin heq, heq]
  | reopen count =>
      have hsame : (⟨p.config.partitionId, count⟩ : PartitionConfig).partitionId =
          p.config.partitionId := rfl
      obtain ⟨calls, hopen⟩ := h.open_eq hid hsame
      have hopen' : Partition.open p.unasked.close .builtin evaluator
          ⟨p.unasked.config.partitionId, count⟩ = _ := Partition.open_unasked hopen
      show run evaluator p.unasked (.reopen count) = (run evaluator p (.reopen count)).unasked
      simp only [run, hopen, hopen']

/-- **A run**, with or without requests. -/
theorem runAll_unasked (actions : List PartitionAction) :
    ∀ p : Partition, p.Sourced evaluator → p.config.partitionId ≤ maxPartitionId →
      runAll evaluator p.unasked (unaskedAll evaluator p actions) =
        (runAll evaluator p actions).unasked := by
  induction actions with
  | nil => intro p _ _; rfl
  | cons action rest ih =>
      intro p h hid
      obtain ⟨hnext, hsame⟩ := h.moves hid (moves h hid action)
      unfold runAll at ih ⊢
      rw [unaskedAll, List.foldl_append, run_unasked h hid,
        ih _ hnext (by rw [hsame]; exact hid), List.foldl_cons]

end PartitionAction

namespace Partition

/--
**Who asked changes nothing that lasts.**

Commands that differ in their requests alone lead the built-in handlers from one state to the same
states, and leave the same records behind, but that a rejection repeats the request of its command.
A run of a partition, and the run in which its commands are put in without requests, end in the same
partition but for the requests: the logs differ in what the records name, and all else that lasts is
the same.  A replay succeeds in both, counts the same commands, leads to the same state and delivers
no response.
-/
theorem asking_changes_nothing (evaluator : Evaluator) :
    (∀ (processor : Processor) (commands others : List Record),
      processor.registry = .builtin →
      commands.map Record.unasked = others.map Record.unasked →
      (∀ count, (processor.after (others.take count)).state =
        (processor.after (commands.take count)).state) ∧
      (processor.outcomes others).map Outcome.followUps =
        List.zipWith (fun (other : Record) (outcome : Outcome) =>
            outcome.followUps.map (Draft.readdressed other.correlation))
          others (processor.outcomes commands)) ∧
    ∀ (clock : Clock) (config : PartitionConfig) (p₀ : Partition) (actions : List PartitionAction),
      Partition.open { clock } .builtin evaluator config = .ok p₀ →
      let p := PartitionAction.runAll evaluator p₀ actions
      let q := PartitionAction.runAll evaluator p₀ (PartitionAction.unaskedAll evaluator p₀ actions)
      q = p.unasked ∧
      ∃ count r, p.recover = (.ok count, r) ∧ q.recover = (.ok count, r.unasked) ∧
        r.host.router = p.host.router ∧
        (p.cursor.needsRecovery = false → r.state = p.state) := by
  constructor
  · intro processor commands others hbuiltin hsame
    refine ⟨fun count => ?_, (Processor.run_askedBy commands others processor hbuiltin hsame).2⟩
    have htake : (commands.take count).map Record.unasked =
        (others.take count).map Record.unasked := by
      rw [List.map_take, List.map_take, hsame]
    exact congrArg Processor.state (Processor.run_askedBy _ _ processor hbuiltin htake).1
  · intro clock config p₀ actions hopen p q
    obtain ⟨h₀, hconfig, hid⟩ := sourced_of_open hopen
    have hid₀ : p₀.config.partitionId ≤ maxPartitionId := by rw [hconfig]; exact hid
    obtain ⟨h, -⟩ := h₀.moves hid₀ (PartitionAction.runAll_moves actions p₀ h₀ hid₀)
    -- Before anything arrives there is nothing to leave out.
    have hfresh : p₀.unasked = p₀ := by
      obtain ⟨-, calls, rfl⟩ := eq_of_open hopen
      rfl
    have hq : q = p.unasked := by
      have hrun := PartitionAction.runAll_unasked actions p₀ h₀ hid₀
      rwa [hfresh] at hrun
    obtain ⟨calls, heq⟩ := h.recover_eq rfl h.readable h.reset
    refine ⟨hq, _, _, heq, ?_, rfl, fun hcurrent => ?_⟩
    · rw [hq]
      exact recover_unasked h.builtin heq
    · show (p.rebuilt _).processor.state = p.processor.state
      rw [h.rebuilt_processor rfl h.reset, ← h.current hcurrent]

/-- A request that is refused, one whose name waits, and one that is accepted, whose follow-ups are
refused at first. -/
def askedRun : List PartitionAction :=
  let cancel : CommandRequest := ⟨some 7, .job .cancel, .job { jobType := "task", retries := 1 }⟩
  let create : CommandRequest := ⟨none, .job .create, .job { jobType := "task", retries := 1 }⟩
  [.arrive (.submit cancel ⟨1, 1⟩), .arrive (.submit create ⟨1, 1⟩), .processRound,
    .arrive (.submit create ⟨1, 2⟩), .arrive (.outage (.window 0 1)), .processRound,
    .runBatch 1 [], .reopen 5]

theorem asking_changes_nothing_asked :
    let p₀ := (unbuilt {} .unavailable {}).rebuilt (LogLink.afterReads {} 1)
    let p := PartitionAction.runAll .unavailable p₀ askedRun
    let q := PartitionAction.runAll .unavailable p₀
      (PartitionAction.unaskedAll .unavailable p₀ askedRun)
    q = p.unasked ∧
    p.records.map (fun record => (record.kind, record.correlation)) =
      [(.command, some ⟨1, 1⟩), (.rejection, some ⟨1, 1⟩), (.command, some ⟨1, 2⟩),
        (.event, none), (.event, none)] ∧
    (p₀.processor.outcomes (q.records.filter Record.isCommand)).map Outcome.followUps =
      List.zipWith (fun (other : Record) (outcome : Outcome) =>
          outcome.followUps.map (Draft.readdressed other.correlation))
        (q.records.filter Record.isCommand)
        (p₀.processor.outcomes (p.records.filter Record.isCommand)) := by
  intro p₀ p q
  obtain ⟨hcommands, hruns⟩ := asking_changes_nothing .unavailable
  obtain ⟨hq, -⟩ := hruns {} {} p₀ askedRun rfl
  have hsame : (p.records.filter Record.isCommand).map Record.unasked =
      (q.records.filter Record.isCommand).map Record.unasked := by decide +kernel
  exact ⟨hq, by decide +kernel, (hcommands p₀.processor _ _ rfl hsame).2⟩

end Partition

end Workflow
