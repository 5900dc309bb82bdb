/-
A rival takes the response.

While appends are not refused, every step of a round succeeds (`Healthy`).  So from any partition
in which a request waits that has a rival, a rebuild followed by a round applies the commands up
to the first rival, and its response goes to the request that waits (`applyCommands_answers`).

Together with what `Partition.Response` shows, this says exactly when a request is certain to
receive no response but its own (`submit_response`).
-/
import Workflow.Proofs.Partition.Response

namespace Workflow

namespace LogLink

/-- No append is refused. -/
structure Healthy (link : LogLink) : Prop where
  appends : ∀ call, link.appends.refuses call = false
  refusals : link.log.refusals = 0

/-- The connection when a batch was appended. -/
def appended (link : LogLink) (drafts : List Draft) : LogLink :=
  { link with
    appends := { link.appends with calls := link.appends.calls + 1 }
    log := { link.log with
      records := link.log.records ++ Log.numbered (link.log.size + 1) drafts } }

theorem Healthy.appended {link : LogLink} (h : link.Healthy) (drafts : List Draft) :
    (link.appended drafts).Healthy := ⟨h.appends, h.refusals⟩

theorem Healthy.appendBatch_eq {link : LogLink} (h : link.Healthy) (drafts : List Draft) :
    ∃ positions, link.appendBatch drafts = (.ok positions, link.appended drafts) := by
  obtain ⟨⟨records, refusals⟩, appends, reads, due⟩ := link
  have hrefusals : refusals = 0 := h.refusals
  subst hrefusals
  have hpasses : appends.refuses appends.calls = false := h.appends appends.calls
  refine ⟨(Log.numbered (records.length + 1) drafts).map Record.position, ?_⟩
  simp only [appendBatch, guardAppend, Outage.next, hpasses, Bool.false_eq_true,
    if_false, Log.appendBatch, Log.size]
  rfl

end LogLink

namespace Partition

variable {evaluator : Evaluator} {p q : Partition}

/-! ### While appends are not refused -/

theorem appendBatch_healthy (hcalm : p.host.link.rebuildDue = false) (h : p.host.link.Healthy)
    (applying : Bool) (drafts : List Draft) :
    p.appendBatch applying drafts = (.ok (), p.withLink (p.host.link.appended drafts)) := by
  obtain ⟨positions, happend⟩ := h.appendBatch_eq drafts
  have hplain : p.rebuildIfDue applying = p := by simp [rebuildIfDue, hcalm]
  simp only [appendBatch, hplain, happend]

theorem checkDueTimers_healthy (hcalm : p.host.link.rebuildDue = false)
    (h : p.host.link.Healthy) :
    ∃ q, p.checkDueTimers = (.ok (), q) ∧ q.host.link.Healthy ∧
      q.host.router = p.host.router ∧ q.cursor = p.cursor := by
  rw [checkDueTimers_eq]
  by_cases hnone : p.untriggered.isEmpty
  · rw [if_pos hnone]
    exact ⟨_, rfl, h, rfl, rfl⟩
  · have happend := appendBatch_healthy (p := p.withTriggers) hcalm h false
      (p.untriggered.map (triggerCommand p.now))
    rw [if_neg hnone, happend]
    exact ⟨_, rfl, h.appended _, rfl, rfl⟩

theorem sweepExpiredLeases_healthy (hcalm : p.host.link.rebuildDue = false)
    (h : p.host.link.Healthy) :
    ∃ q, p.sweepExpiredLeases = (.ok (), q) ∧ q.host.link.Healthy ∧
      q.host.router = p.host.router ∧ q.cursor = p.cursor := by
  rw [sweepExpiredLeases_eq]
  by_cases hnone : p.swept.isEmpty
  · rw [if_pos hnone]
    exact ⟨_, rfl, h, rfl, rfl⟩
  · have happend := appendBatch_healthy (p := p.withTimeouts) hcalm h false (p.swept.map Prod.snd)
    rw [if_neg hnone, happend]
    exact ⟨_, rfl, h.appended _, rfl, rfl⟩

theorem applyCommand_healthy (hcalm : p.host.link.rebuildDue = false) (h : p.host.link.Healthy)
    (command : Record) :
    ∃ link, link.Healthy ∧ p.applyCommand command = (.ok (), p.advanced link command) ∧
      link.log.records = p.records ++ Log.numbered (p.host.link.log.size + 1)
        (p.processor.apply command).1.followUps := by
  by_cases hnone : (p.processor.apply command).1.followUps = []
  · refine ⟨p.host.link, h, ?_, by rw [hnone]; exact (List.append_nil _).symm⟩
    have hempty : (p.processor.apply command).1.followUps.isEmpty = true := by rw [hnone]; rfl
    simp only [applyCommand, hempty, if_true]
    rfl
  · have hsome : (p.processor.apply command).1.followUps.isEmpty = false := by simpa using hnone
    have happend := appendBatch_healthy (p := { p with processor := (p.processor.apply command).2 })
      hcalm h true (p.processor.apply command).1.followUps
    refine ⟨_, h.appended (p.processor.apply command).1.followUps, ?_, rfl⟩
    simp only [applyCommand, hsome, Bool.false_eq_true, if_false, happend]
    rfl

/-- Preparing a round reads the first commands that are left, and answers nobody. -/
theorem prepareRound_healthy (hp : Sourced evaluator p)
    (hid : p.config.partitionId ≤ maxPartitionId) (hcurrent : p.cursor.needsRecovery = false)
    (h : p.host.link.Healthy) (max : Nat) :
    ∃ q, p.prepareRound max = (.ok (q.unapplied.take max), q) ∧ Moves evaluator p q ∧
      q.host.link.Healthy ∧ q.host.router = p.host.router ∧ q.cursor = p.cursor := by
  obtain ⟨p₁, htimers, hhealthy₁, hrouter₁, hcursor₁⟩ := checkDueTimers_healthy hp.calm h
  have hmove₁ : Move evaluator p p₁ := by
    have hmove : Move evaluator p p.checkDueTimers.2 := .timers
    rwa [htimers] at hmove
  obtain ⟨hp₁, hsame₁⟩ := hp.move hid hmove₁
  obtain ⟨p₂, hleases, hhealthy₂, hrouter₂, hcursor₂⟩ :=
    sweepExpiredLeases_healthy hp₁.calm hhealthy₁
  have hmove₂ : Move evaluator p₁ p₂ := by
    have hmove : Move evaluator p₁ p₁.sweepExpiredLeases.2 := .leases
    rwa [hleases] at hmove
  obtain ⟨hp₂, -⟩ := hp₁.move (by rw [hsame₁]; exact hid) hmove₂
  obtain ⟨calls, hread⟩ := hp₂.readUnprocessed_eq max
  refine ⟨p₂.withLink (p₂.host.link.afterReads calls), ?_, ?_, ⟨hhealthy₂.appends,
    hhealthy₂.refusals⟩, hrouter₂.trans hrouter₁, hcursor₂.trans hcursor₁⟩
  · unfold prepareRound
    rw [recoverIfNeeded_of_current hcurrent]
    simp only [htimers, hleases, hread]
    rfl
  · have hmoves : Moves evaluator p p₂ := (Relation.ReflTransGen.single hmove₁).tail hmove₂
    exact hmoves.tail (.outside p₂.host.clock rfl rfl rfl)

/-! ### The first rival is applied -/

/-- The response to a command of another name leaves a request waiting. -/
theorem lookup_deliver_of_ne {router : ResponseRouter} {response : Response}
    {correlation : Correlation} (hne : response.correlation ≠ correlation) :
    (router.deliver response).waiting.lookup correlation = router.waiting.lookup correlation := by
  unfold ResponseRouter.deliver
  cases router.waiting.lookup response.correlation with
  | none => rfl
  | some ticket =>
      show (router.waiting.filter fun entry => entry.1 != response.correlation).lookup correlation =
        _
      induction router.waiting with
      | nil => rfl
      | cons entry rest ih =>
          obtain ⟨name, found⟩ := entry
          by_cases hname : name = response.correlation
          · have hother : (correlation == name) = false := by
              rw [hname]
              simpa using hne.symm
            rw [List.filter_cons_of_neg (by simpa using hname), List.lookup_cons, hother]
            exact ih
          · rw [List.filter_cons_of_pos (by simpa using hname), List.lookup_cons,
              List.lookup_cons]
            cases correlation == name with
            | true => rfl
            | false => exact ih

theorem lookup_answered_of_ne (hbuiltin : p.processor.registry = .builtin) {command : Record}
    {correlation : Correlation} (hne : command.correlation ≠ some correlation) :
    (p.answered command).waiting.lookup correlation =
      p.host.router.waiting.lookup correlation := by
  unfold answered
  cases hresponse : (p.processor.apply command).1.response with
  | none => rfl
  | some response =>
      refine lookup_deliver_of_ne fun heq => hne ?_
      rw [Processor.correlation_of_response hbuiltin hresponse, heq]

/-- A command with a name has a response, and it goes to the request that waits. -/
theorem lookup_answered_self (hbuiltin : p.processor.registry = .builtin) {command : Record}
    {correlation : Correlation} {ticket : Nat} (hcommand : command.isCommand)
    (hname : command.correlation = some correlation)
    (hwaits : p.host.router.waiting.lookup correlation = some ticket) :
    ∃ response, (p.processor.apply command).1.response = some response ∧
      (p.answered command).delivered.lookup ticket = some response := by
  cases hresponse : (p.processor.apply command).1.response with
  | none =>
      rw [Processor.apply_command hbuiltin hcommand] at hresponse
      simp [Decision.response, hname] at hresponse
  | some response =>
      refine ⟨response, rfl, ?_⟩
      have hsame := Processor.correlation_of_response hbuiltin hresponse
      rw [hname] at hsame
      unfold answered ResponseRouter.deliver
      rw [hresponse]
      dsimp only
      rw [← Option.some.inj hsame, hwaits]
      exact List.lookup_cons_self

/-- **The first command of a name answers the request of that name.** -/
theorem applyCommands_answers {correlation : Correlation} {ticket : Nat} {rival : Record}
    (hrival : rival.isCommand) (hname : rival.correlation = some correlation)
    (before : List Record) :
    ∀ p : Partition, Sourced evaluator p → p.config.partitionId ≤ maxPartitionId →
      p.cursor.needsRecovery = false → p.host.link.Healthy →
      p.host.router.waiting.lookup correlation = some ticket →
      (∀ command ∈ before, command.correlation ≠ some correlation) →
      before ++ [rival] <+: p.unapplied →
      ∃ response,
        (applyCommands (before ++ [rival]) p).2.host.router.delivered.lookup ticket =
          some response ∧
        responseTo evaluator (applyCommands (before ++ [rival]) p).2 rival = some response := by
  induction before with
  | nil =>
      intro p h hid hcurrent hhealthy hwaits _ hfront
      obtain ⟨others, hnext⟩ := hfront
      rw [List.nil_append, List.cons_append] at hnext
      have hmem : rival ∈ p.unapplied := hnext ▸ List.mem_cons_self
      have hmove : Move evaluator p (p.applyCommand rival).2 := .apply hcurrent hnext.symm
      obtain ⟨link, -, heq, -⟩ := applyCommand_healthy h.calm hhealthy rival
      obtain ⟨h', hsame⟩ := h.move hid hmove
      have hgrown := Move.records_grow h hid hmove
      obtain ⟨response, hresponse, hdelivered⟩ := lookup_answered_self h.builtin hrival hname hwaits
      have hposition := h.numbered.position_le (mem_unapplied_iff.mp hmem).1
      have hstable := responseTo_eq h' hsame hgrown hposition
      rw [h.responseTo_next hcurrent hnext.symm, hresponse, heq] at hstable
      refine ⟨response, ?_⟩
      rw [List.nil_append, applyCommands_cons_ok hnext.symm heq]
      refine ⟨?_, hstable⟩
      show (p.advanced link rival).host.router.delivered.lookup ticket = _
      rw [advanced_router]
      exact hdelivered
  | cons command rest ih =>
      intro p h hid hcurrent hhealthy hwaits hothers hfront
      obtain ⟨others, hnext⟩ := hfront
      rw [List.cons_append, List.cons_append] at hnext
      have hmove : Move evaluator p (p.applyCommand command).2 := .apply hcurrent hnext.symm
      obtain ⟨h', hsame⟩ := h.move hid hmove
      obtain ⟨link, hlink, heq, hlog⟩ := applyCommand_healthy h.calm hhealthy command
      rw [heq] at h' hsame
      obtain ⟨-, hleft⟩ := h.applied_advanced hnext.symm hlog
      have hanswers := ih (p.advanced link command) h' (by rw [hsame]; exact hid)
        (by rw [advanced_cursor]; exact hcurrent) (by rw [advanced_link]; exact hlink) ?_
        (fun other ho => hothers other (List.mem_cons_of_mem _ ho)) ?_
      · rw [List.cons_append, applyCommands_cons_ok hnext.symm heq]
        exact hanswers
      · rw [advanced_router]
        exact (lookup_answered_of_ne h.builtin (hothers command List.mem_cons_self)).trans hwaits
      · rw [hleft]
        exact List.prefix_append _ _

/-! ### Who answers a request -/

/-- After a rebuild the rivals of a name are the commands of that name that are left. -/
theorem Sourced.rivals_eq (h : Sourced evaluator p)
    (hcursor : p.cursor.lastProcessed = Recovery.lastSource? p.records)
    (correlation : Correlation) :
    p.rivals correlation =
      p.unapplied.filter fun record => record.correlation == some correlation := by
  unfold rivals unapplied
  rw [List.filter_filter]
  refine List.filter_congr fun record hr => ?_
  rw [isProcessed_iff p (h.numbered.position_pos hr), hcursor]
  by_cases hlate : (Recovery.lastSource? p.records).getD 0 < record.position
  · have hnot : ¬ record.position ≤ (Recovery.lastSource? p.records).getD 0 := Nat.not_le.mpr hlate
    simp only [decide_eq_true hlate, decide_eq_false hnot, Bool.and_true, Bool.not_false]
    exact Bool.and_comm _ _
  · simp [hlate, Nat.not_lt.mp hlate]

/-- What was left is still left, and stands in front, while the cursor stays. -/
theorem Sourced.unapplied_kept (hp : Sourced evaluator p) (hq : Sourced evaluator q)
    (hcursor : q.cursor = p.cursor) (hlog : p.records <+: q.records) :
    p.unapplied <+: q.unapplied := by
  obtain ⟨more, hmore⟩ := hlog
  have hle : p.cursor.lastProcessed.getD 0 ≤ p.records.length := hp.cursor_le
  rw [unapplied_eq hp.numbered, unapplied_eq hq.numbered, hcursor, ← hmore,
    List.drop_append_of_le_length hle, List.filter_append]
  exact List.prefix_append _ _

/-- What is done to let the rival of a request be applied: appends are refused no more, the state
is rebuilt, and a round applies so many commands. -/
def answering (max : Nat) : List PartitionAction :=
  [.arrive (.outage .none), .arrive (.refuseNext 0), .recover, .runBatch max []]

/-- The partition before the round of it. -/
def healed (p : Partition) : Partition :=
  (Arrival.run (Arrival.run p (.outage .none)) (.refuseNext 0)).recover.2

theorem healed_moves (p : Partition) : Moves evaluator p p.healed :=
  ((Relation.ReflTransGen.single (Arrival.outage .none).move).tail
    (Arrival.refuseNext 0).move).tail .recover

/-- It is not ahead of the log, refuses no append, and has the requests and the log as before. -/
theorem Sourced.healed (h : Sourced evaluator p) :
    p.healed.cursor = ⟨Recovery.lastSource? p.records, false⟩ ∧ p.healed.host.link.Healthy ∧
      p.healed.host.router = p.host.router ∧ p.healed.records = p.records := by
  have hmid : Sourced evaluator (Arrival.run (Arrival.run p (.outage .none)) (.refuseNext 0)) :=
    h.congr rfl rfl rfl rfl rfl rfl
  obtain ⟨calls, hrecover⟩ := hmid.recover_eq rfl hmid.readable hmid.reset
  have heq : p.healed = ((Arrival.run (Arrival.run p (.outage .none)) (.refuseNext 0)).rebuilt
      (LogLink.afterReads _ calls)) := congrArg Prod.snd hrecover
  rw [heq]
  exact ⟨rfl, ⟨fun _ => rfl, rfl⟩, rfl, rfl⟩

/-- **A rival answers.**  When a request waits and has a rival, there is a way to go on in which
it receives the response to the first of them. -/
theorem Sourced.answering_delivers (h : Sourced evaluator p)
    (hid : p.config.partitionId ≤ maxPartitionId) {correlation : Correlation} {ticket : Nat}
    (hwaits : p.host.router.waiting.lookup correlation = some ticket) {rival : Record}
    {others : List Record} (hrivals : p.rivals correlation = rival :: others) :
    ∃ max response,
      (PartitionAction.runAll evaluator p (answering max)).host.router.delivered.lookup ticket =
        some response ∧
      responseTo evaluator (PartitionAction.runAll evaluator p (answering max)) rival =
        some response := by
  obtain ⟨hhealed, hsame⟩ := h.moves hid p.healed_moves
  have hidHealed : p.healed.config.partitionId ≤ maxPartitionId := by rw [hsame]; exact hid
  obtain ⟨hcursor, hhealthy, hrouter, hlog⟩ := h.healed
  have hcurrent : p.healed.cursor.needsRecovery = false := by rw [hcursor]
  have hlast : p.healed.cursor.lastProcessed = Recovery.lastSource? p.healed.records := by
    rw [hcursor, hlog]
  have hrivals' : p.healed.rivals correlation = rival :: others := by
    unfold rivals
    rw [hlog]
    exact hrivals
  -- The commands before the first rival have other names.
  rw [hhealed.rivals_eq hlast, List.filter_eq_cons_iff] at hrivals'
  obtain ⟨before, after, hsplit, hbefore, hname, -⟩ := hrivals'
  have hrival : rival.isCommand := by
    have hmem : rival ∈ p.healed.unapplied := by
      rw [hsplit]
      exact List.mem_append_right _ List.mem_cons_self
    exact (mem_unapplied_iff.mp hmem).2.1
  obtain ⟨q, hprepare, hround, hq, hrouterq, hcursorq⟩ :=
    prepareRound_healthy hhealed hidHealed hcurrent hhealthy (before.length + 1)
  obtain ⟨hsourced, hsameq⟩ := hhealed.moves hidHealed hround
  have hidq : q.config.partitionId ≤ maxPartitionId := by rw [hsameq]; exact hidHealed
  have hcurrentq : q.cursor.needsRecovery = false := by rw [hcursorq]; exact hcurrent
  have hwaitsq : q.host.router.waiting.lookup correlation = some ticket := by
    rw [hrouterq, hrouter]
    exact hwaits
  have hfirst : before ++ [rival] <+: q.unapplied := by
    refine List.IsPrefix.trans ?_ (hhealed.unapplied_kept hsourced hcursorq
      (Moves.records_grow hhealed hidHealed hround))
    rw [hsplit]
    exact ⟨after, by simp⟩
  have htake : q.unapplied.take (before.length + 1) = before ++ [rival] := by
    rw [List.prefix_iff_eq_take.mp hfirst]
    simp
  have hbatch : PartitionAction.runAll evaluator p (answering (before.length + 1)) =
      (applyCommands (before ++ [rival]) q).2 := by
    show (p.healed.runBatch (before.length + 1) []).2 = _
    unfold runBatch
    rw [hprepare]
    show (q.processCommands _).2 = _
    rw [htake, processCommands_of_current hcurrentq]
  obtain ⟨response, hanswer⟩ := applyCommands_answers hrival (by simpa using hname) before q
    hsourced hidq hcurrentq hq hwaitsq (fun command hc => by simpa using hbefore command hc) hfirst
  refine ⟨before.length + 1, response, ?_⟩
  rw [hbatch]
  exact hanswer

/-- What is taken is the response that was delivered. -/
theorem tryTake_eq_response {pending : PendingResponse} {response : Response} :
    (p.tryTake pending).1 = .response response ↔
      p.host.router.delivered.lookup pending.ticket = some response := by
  unfold tryTake ResponseRouter.take
  cases p.host.router.delivered.lookup pending.ticket with
  | some found => simp
  | none =>
      cases p.host.router.waiting.any fun entry => entry.2 == pending.ticket <;> simp

/-- Only the candidates of a ticket answer it, whatever happens next. -/
theorem Tracked.answer (h : Sourced evaluator p) (hid : p.config.partitionId ≤ maxPartitionId)
    {pending : PendingResponse} {correlation : Correlation} {candidates : List Record}
    (htracked : Tracked evaluator p pending.ticket correlation candidates)
    (after : List PartitionAction) {response : Response}
    (htake : ((PartitionAction.runAll evaluator p after).tryTake pending).1 =
      .response response) :
    ∃ command ∈ candidates,
      responseTo evaluator (PartitionAction.runAll evaluator p after) command = some response := by
  have hend := htracked.moves h hid (PartitionAction.runAll_moves after p h hid)
  obtain ⟨front, back, hsplit, -⟩ := List.lookup_eq_some_iff.mp (tryTake_eq_response.mp htake)
  refine hend.delivered response ?_
  rw [hsplit]
  exact List.mem_append_right _ List.mem_cons_self

/-- **Who answers a request.**  A request that was sent gets, whatever happens next, no response
but the one to its own command or to one of its rivals; so without rivals it gets its own.  With
a rival it may get the response to the first of them, whose command stands before its own. -/
theorem submit_response {clock : Clock} {config : PartitionConfig} {p₀ p : Partition}
    (hopen : Partition.open { clock } .builtin evaluator config = .ok p₀)
    (before : List PartitionAction) {request : CommandRequest} {correlation : Correlation}
    {pending : PendingResponse}
    (hsubmit : (PartitionAction.runAll evaluator p₀ before).submit request correlation =
      (.ok pending, p)) :
    let rivals := (PartitionAction.runAll evaluator p₀ before).rivals correlation
    ∃ own ∈ p.records, own.position = pending.position ∧
      own.toDraft = (request.toDraft.withCorrelation correlation).withTimestamp
        (PartitionAction.runAll evaluator p₀ before).now ∧
      (∀ (after : List PartitionAction) (response : Response),
        ((PartitionAction.runAll evaluator p after).tryTake pending).1 = .response response →
          ∃ command ∈ rivals ++ [own],
            responseTo evaluator (PartitionAction.runAll evaluator p after) command =
              some response) ∧
      (∀ rival others, rivals = rival :: others → rival.position < pending.position ∧
        ∃ (after : List PartitionAction) (response : Response),
          ((PartitionAction.runAll evaluator p after).tryTake pending).1 = .response response ∧
            responseTo evaluator (PartitionAction.runAll evaluator p after) rival =
              some response) := by
  intro rivals
  obtain ⟨hid, calls, hstart⟩ := eq_of_open hopen
  have h₀ : Sourced evaluator p₀ := (sourced_of_open hopen).1
  have hid₀ : p₀.config.partitionId ≤ maxPartitionId := by rw [hstart]; exact hid
  have htickets₀ : Ticketed p₀.host.router := by
    rw [hstart]
    exact ⟨fun _ he => (List.not_mem_nil he).elim, fun _ he => (List.not_mem_nil he).elim⟩
  have hmoves := PartitionAction.runAll_moves before p₀ h₀ hid₀
  obtain ⟨hsent, hsame⟩ := h₀.moves hid₀ hmoves
  have hidSent : (PartitionAction.runAll evaluator p₀ before).config.partitionId ≤
      maxPartitionId := by rw [hsame]; exact hid₀
  have htickets := htickets₀.moves h₀ hid₀ hmoves
  obtain ⟨own, hown, hposition, hdraft, hrivals, hwaits, hearly, htracked⟩ :=
    tracked_submit hsent htickets hsubmit
  have hmove : Move evaluator (PartitionAction.runAll evaluator p₀ before) p := by
    have hmove : Move evaluator (PartitionAction.runAll evaluator p₀ before)
        ((PartitionAction.runAll evaluator p₀ before).submit request correlation).2 :=
      .submit request correlation
    rwa [hsubmit] at hmove
  obtain ⟨hp, hsame'⟩ := hsent.move hidSent hmove
  have hidp : p.config.partitionId ≤ maxPartitionId := by rw [hsame']; exact hidSent
  refine ⟨own, hown, hposition, hdraft, ?_, ?_⟩
  · intro after response htake
    exact htracked.answer hp hidp after htake
  · intro rival others hrival
    change (PartitionAction.runAll evaluator p₀ before).rivals correlation = _ at hrival
    refine ⟨hearly rival (hrival ▸ List.mem_cons_self), ?_⟩
    have hfirst : p.rivals correlation = rival :: (others ++ [own]) := by
      rw [hrivals, hrival]
      rfl
    obtain ⟨max, response, hdelivered, hresponse⟩ := hp.answering_delivers hidp hwaits hfirst
    exact ⟨answering max, response, tryTake_eq_response.mpr hdelivered, hresponse⟩

/-- A run in which a request is sent, and the partition is opened again before its command is
applied. -/
def leftBehind : List PartitionAction :=
  [.arrive (.submit ⟨none, .job .create, .job { jobType := "task", retries := 1 }⟩ ⟨1, 1⟩),
    .reopen 1]

/-- A request for a job that does not exist. -/
def absentJob : CommandRequest := ⟨some 77, .job .complete, .job { jobType := "task" }⟩

theorem leftBehind_response :
    let p₀ := (unbuilt {} .unavailable {}).rebuilt (LogLink.afterReads {} 1)
    let sent := PartitionAction.runAll .unavailable p₀ leftBehind
    Partition.open { clock := {} } .builtin .unavailable {} = .ok p₀ ∧
      (sent.submit absentJob ⟨1, 1⟩).1 = .ok ⟨2, ⟨1, 1⟩, 1⟩ ∧
      ∃ rival ∈ sent.rivals ⟨1, 1⟩, rival.position = 1 ∧
        ∃ (after : List PartitionAction) (response : Response),
          let q := PartitionAction.runAll .unavailable (sent.submit absentJob ⟨1, 1⟩).2 after
          (q.tryTake ⟨2, ⟨1, 1⟩, 1⟩).1 = .response response ∧
            responseTo .unavailable q rival = some response := by
  intro p₀ sent
  have hopen : Partition.open { clock := {} } .builtin .unavailable {} = .ok p₀ := rfl
  have hpending : (sent.submit absentJob ⟨1, 1⟩).1 = .ok ⟨2, ⟨1, 1⟩, 1⟩ := by decide +kernel
  have hsubmit : sent.submit absentJob ⟨1, 1⟩ =
      (.ok ⟨2, ⟨1, 1⟩, 1⟩, (sent.submit absentJob ⟨1, 1⟩).2) := Prod.ext hpending rfl
  obtain ⟨own, -, -, -, -, hrival⟩ := submit_response hopen leftBehind hsubmit
  have hrivals : ∃ rival, sent.rivals ⟨1, 1⟩ = [rival] :=
    List.length_eq_one_iff.mp (by decide +kernel)
  obtain ⟨rival, hrivals⟩ := hrivals
  obtain ⟨hearly, hanswer⟩ := hrival rival [] hrivals
  have hmem : rival ∈ sent.rivals ⟨1, 1⟩ := hrivals ▸ List.mem_cons_self
  have hfirst : ∀ rival ∈ sent.rivals ⟨1, 1⟩, rival.position = 1 := by decide +kernel
  exact ⟨hopen, hpending, rival, hmem, hfirst rival hmem, hanswer⟩

/-- A gateway numbers its requests from one after each opening, so the second request of this run
has the name of the first one.  It is told that a job was created, while its own command is
refused. -/
theorem gateway_receives_other_response :
    let p₀ := (unbuilt {} .unavailable {}).rebuilt (LogLink.afterReads {} 1)
    let create := ⟨none, .job .create, .job { jobType := "task", retries := 1 }⟩
    let closed := (Gateway.send ⟨1, 1⟩ p₀ create).2.2
    let sent := Gateway.send ⟨1, 1⟩ (PartitionAction.run .unavailable closed (.reopen 1)) absentJob
    let p := PartitionAction.run .unavailable sent.2.2 (.processUntilIdle 3)
    Partition.open { clock := {} } .builtin .unavailable {} = .ok p₀ ∧
      ∃ pending own response, sent.1 = .ok pending ∧ own ∈ p.records ∧
        own.position = pending.position ∧ (p.tryTake pending).1 = .response response ∧
        responseTo .unavailable p own ≠ some response := by
  intro p₀ create closed sent p
  refine ⟨rfl, ⟨2, ⟨1, 1⟩, 1⟩, p.records.get ⟨1, by decide +kernel⟩,
    { kind := .event, key := some (2 ^ 51 + 1), intent := .job .created, valueType := .job,
      value := .job { jobType := "task", retries := 1 }, correlation := ⟨1, 1⟩ }, ?_⟩
  decide +kernel

end Partition

end Workflow
