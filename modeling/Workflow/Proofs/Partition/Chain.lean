/-
The chain of a repeating timer, as the log shows it.

A timer that fires is followed by the timer that the same command creates (`Follows`).  The timers
that come after a first one in this way are its chain.  What the log reports about a timer
(`reportsIn`) is what the engine's history reports about it, so a timer of the chain is pending as
long as nothing but its creation is reported (`TimerTold`).

`Chain` says how far a chain has come: some timers have fired, at the due dates of the first firings
of the cycle, and at most one waits for the next firing.  Records that report nothing about these
timers leave it as it is (`Chain.keep`), and when the one that waits fires then its successor waits
instead, if the cycle goes on (`Chain.fire`).
-/
import Workflow.Proofs.Partition.Chronicle
import Workflow.Proofs.Timer.Recurrence

namespace Workflow

/-! ### What a log reports about a timer -/

/-- The record tells this of the timer with the key. -/
def Record.TellsTimer (record : Record) (intent : TimerIntent) (key : Nat) : Prop :=
  record.toDraft.tells (.timer intent) ∧ record.key = some key

/-- What a log reports about a timer, in order. -/
def reportsIn (key : Nat) (records : List Record) : List TimerReport :=
  records.filterMap fun record => timerReport? key (record, record.toDraft)

section Reports

variable {key : Nat} {records : List Record} {record : Record} {intent : TimerIntent}

theorem Record.TellsTimer.isEvent (h : record.TellsTimer intent key) : record.isEvent = true :=
  (Bool.and_eq_true_iff.mp h.1).1

theorem timerReport?_eq_some (entry : Record × Draft) (report : TimerReport) :
    timerReport? key entry = some report ↔
      (entry.2.tells (.timer report.intent) ∧ entry.2.key = some key) ∧
        entry.2.value.timer? = report.timer ∧ entry.1.timestamp = report.time := by
  obtain ⟨intent, timer, time⟩ := report
  unfold timerReport? Draft.tells
  rw [Bool.and_eq_true_iff, beq_iff_eq, beq_iff_eq]
  split
  · split <;> grind
  · grind

theorem reportsIn_append (records new : List Record) :
    reportsIn key (records ++ new) = reportsIn key records ++ reportsIn key new :=
  List.filterMap_append

theorem Record.TellsTimer.report (h : record.TellsTimer intent key) (hr : record ∈ records) :
    (⟨intent, record.value.timer?, record.timestamp⟩ : TimerReport) ∈ reportsIn key records :=
  List.mem_filterMap.mpr ⟨record, hr, (timerReport?_eq_some _ _).mpr ⟨h, rfl, rfl⟩⟩

theorem exists_of_mem_reportsIn {report : TimerReport} (h : report ∈ reportsIn key records) :
    ∃ record ∈ records, record.TellsTimer report.intent key ∧ record.value.timer? = report.timer ∧
      record.timestamp = report.time := by
  obtain ⟨record, hr, heq⟩ := List.mem_filterMap.mp h
  exact ⟨record, hr, (timerReport?_eq_some _ _).mp heq⟩

/-- Records that are no events report nothing. -/
theorem reportsIn_of_not_event (h : ∀ record ∈ records, record.isEvent = false) :
    reportsIn key records = [] := by
  refine List.eq_nil_iff_forall_not_mem.mpr fun report hreport => ?_
  obtain ⟨record, hr, htells, -⟩ := exists_of_mem_reportsIn hreport
  exact Bool.false_ne_true ((h record hr).symm.trans htells.isEvent)

/-- The log reports what the history of the engine reports. -/
theorem reportsIn_follow (command : Record) (events : List Event) :
    ∀ position, reportsIn key (Partition.follow position command events) =
      timerReports key (events.map (Event.told command)) := by
  induction events with
  | nil => intro position; rfl
  | cons event rest ih =>
      intro position
      unfold reportsIn timerReports at ih ⊢
      rw [List.map_cons, List.filterMap_cons, ← ih (position + 1)]
      exact List.filterMap_cons

end Reports

namespace TimerTold

variable {state : EngineState} {key : Nat} {past rest : List TimerReport}
  {timer : Option TimerPayload} {time : Instant}

/-- Nothing is told before the creation of a timer. -/
theorem past_nil (h : TimerTold state key (past ++ ⟨.created, timer, time⟩ :: rest)) :
    past = [] := by
  generalize hall : past ++ ⟨.created, timer, time⟩ :: rest = reports at h
  cases past with
  | nil => rfl
  | cons first past =>
      cases h <;> simp [List.append_eq_cons_iff] at hall

/-- After two reports there is no other. -/
theorem rest_nil {first second : TimerReport} (h : TimerTold state key (first :: second :: rest)) :
    rest = [] ∧ state.timers.get? key = none := by
  cases h with
  | canceled timer born gone hget => exact ⟨rfl, hget⟩
  | triggered timer born fired hget => exact ⟨rfl, hget⟩

/-- What comes after the creation. -/
theorem after_created (h : TimerTold state key (⟨.created, timer, time⟩ :: rest)) :
    rest = [] ∨ (∃ gone, rest = [⟨.canceled, timer, gone⟩]) ∨
      ∃ gone, rest = [⟨.triggered, timer, gone⟩] := by
  cases h with
  | pending => exact .inl rfl
  | canceled timer born gone => exact .inr (.inl ⟨gone, rfl⟩)
  | triggered timer born fired => exact .inr (.inr ⟨fired, rfl⟩)

end TimerTold

/-! ### Chains -/

/-- A timer follows another one if the command by which the other one fires creates it. -/
def Follows (records : List Record) (key next : Nat) : Prop :=
  ∃ fired ∈ records, ∃ created ∈ records, fired.TellsTimer .triggered key ∧
    created.TellsTimer .created next ∧ created.sourcePosition = fired.sourcePosition

/-- The timers that come after a first one, and this one. -/
abbrev InChain (records : List Record) (first key : Nat) : Prop :=
  Relation.ReflTransGen (Follows records) first key

/-- Whether the record tells that one of the timers fires. -/
def Record.tellsFiring (keys : List Nat) (record : Record) : Bool :=
  record.toDraft.tells (.timer .triggered) && record.key.any fun key => keys.contains key

/-- The due dates of the timers with these keys that have fired, in the order of firing. -/
def firedDates (keys : List Nat) (records : List Record) : List (Option Instant) :=
  (records.filter (Record.tellsFiring keys)).map fun record =>
    record.value.timer?.bind TimerPayload.dueDate

section Firings

variable {key next : Nat} {keys : List Nat} {records new : List Record} {record : Record}

theorem Record.tellsFiring_iff :
    record.tellsFiring keys = true ↔ ∃ key ∈ keys, record.TellsTimer .triggered key := by
  unfold tellsFiring TellsTimer
  cases record.key <;> simp [and_comm]

theorem firedDates_append (records new : List Record) :
    firedDates keys (records ++ new) = firedDates keys records ++ firedDates keys new := by
  unfold firedDates
  rw [List.filter_append, List.map_append]

/-- Timers that are not reported to fire do not count. -/
theorem firedDates_subset {others : List Nat} (hsub : ∀ key ∈ others, key ∈ keys)
    (hnone : ∀ key ∈ keys, key ∉ others → ∀ report ∈ reportsIn key records,
      report.intent ≠ .triggered) :
    firedDates keys records = firedDates others records := by
  unfold firedDates
  refine congrArg _ (List.filter_congr fun record hr => ?_)
  rw [Bool.eq_iff_iff, Record.tellsFiring_iff, Record.tellsFiring_iff]
  constructor
  · rintro ⟨key, hkey, htells⟩
    by_cases hin : key ∈ others
    · exact ⟨key, hin, htells⟩
    · exact absurd rfl (hnone key hkey hin _ (htells.report hr))
  · rintro ⟨key, hkey, htells⟩
    exact ⟨key, hsub key hkey, htells⟩

theorem firedDates_nil (records : List Record) : firedDates [] records = [] := by
  unfold firedDates
  rw [List.map_eq_nil_iff, List.filter_eq_nil_iff]
  intro record _ htells
  obtain ⟨key, hkey, -⟩ := Record.tellsFiring_iff.mp htells
  exact List.not_mem_nil hkey

theorem Record.TellsTimer.intent_eq {intent other : TimerIntent}
    (h : record.TellsTimer intent key) (h' : record.TellsTimer other key) : intent = other := by
  have hfirst : record.intent = .timer intent := beq_iff_eq.mp (Bool.and_eq_true_iff.mp h.1).2
  have hsecond : record.intent = .timer other := beq_iff_eq.mp (Bool.and_eq_true_iff.mp h'.1).2
  cases hfirst.symm.trans hsecond
  rfl

/-- What fires according to the reports about one timer. -/
theorem firedDates_singleton (key : Nat) (records : List Record) :
    firedDates [key] records = ((reportsIn key records).filter fun report =>
      report.intent == .triggered).map fun report => report.timer.bind TimerPayload.dueDate := by
  induction records with
  | nil => rfl
  | cons record rest ih =>
      have hfires : record.tellsFiring [key] = true ↔ record.TellsTimer .triggered key := by
        rw [Record.tellsFiring_iff]
        exact ⟨fun ⟨other, hother, htells⟩ => List.mem_singleton.mp hother ▸ htells,
          fun htells => ⟨key, List.mem_singleton_self key, htells⟩⟩
      unfold firedDates reportsIn at ih ⊢
      rw [List.filterMap_cons, List.filter_cons]
      cases hreport : timerReport? key (record, record.toDraft) with
      | none =>
          rw [if_neg, ih]
          intro htells
          have hsome := (timerReport?_eq_some (record, record.toDraft) ⟨.triggered, _, _⟩).mpr
            ⟨hfires.mp htells, rfl, rfl⟩
          cases hreport.symm.trans hsome
      | some report =>
          obtain ⟨hrecord, hvalue, -⟩ := (timerReport?_eq_some _ _).mp hreport
          have htells : record.TellsTimer report.intent key := hrecord
          change record.value.timer? = report.timer at hvalue
          rw [List.filter_cons]
          by_cases hintent : report.intent = .triggered
          · rw [if_pos (hfires.mpr (hintent ▸ htells)), if_pos (beq_iff_eq.mpr hintent),
              List.map_cons, List.map_cons, ih, hvalue]
          · rw [if_neg fun h => hintent (htells.intent_eq (hfires.mp h)),
              if_neg fun h => hintent (beq_iff_eq.mp h), ih]

/-- One more timer fires. -/
theorem firedDates_snoc {timer : Option TimerPayload} {time : Instant}
    (hkeys : ∀ other ∈ keys, reportsIn other new = [])
    (hbefore : ∀ report ∈ reportsIn key records, report.intent ≠ .triggered)
    (hfires : reportsIn key new = [⟨.triggered, timer, time⟩]) :
    firedDates (keys ++ [key]) (records ++ new) =
      firedDates keys records ++ [timer.bind TimerPayload.dueDate] := by
  have hold : firedDates (keys ++ [key]) records = firedDates keys records := by
    refine firedDates_subset (fun other => List.mem_append_left _)
      fun other hother hnot report hin => ?_
    rw [List.mem_singleton.mp ((List.mem_append.mp hother).resolve_left hnot)] at hin
    exact hbefore report hin
  have hnew : firedDates (keys ++ [key]) new = firedDates [key] new := by
    refine firedDates_subset (fun other => List.mem_append_right _)
      fun other hother hnot report hin => ?_
    rw [hkeys other ((List.mem_append.mp hother).resolve_right hnot)] at hin
    exact absurd hin List.not_mem_nil
  rw [firedDates_append, hold, hnew, firedDates_singleton, hfires]
  rfl

end Firings

/-- No event among the new records follows from a command that earlier records follow from. -/
def Apart (records new : List Record) : Prop :=
  ∀ early ∈ records, ∀ late ∈ new, early.isEvent = true → late.isEvent = true →
    late.sourcePosition ≠ early.sourcePosition

section Follows

variable {key next : Nat} {records new : List Record}

theorem Follows.append (h : Follows records key next) (new : List Record) :
    Follows (records ++ new) key next := by
  obtain ⟨fired, hf, created, hc, htells⟩ := h
  exact ⟨fired, List.mem_append_left _ hf, created, List.mem_append_left _ hc, htells⟩

/-- What follows, follows from one command. -/
theorem Follows.cases (h : Follows (records ++ new) key next) (hapart : Apart records new) :
    Follows records key next ∨ Follows new key next := by
  obtain ⟨fired, hf, created, hc, hfired, hcreated, hsource⟩ := h
  rcases List.mem_append.mp hf with hf | hf <;> rcases List.mem_append.mp hc with hc | hc
  · exact .inl ⟨fired, hf, created, hc, hfired, hcreated, hsource⟩
  · exact absurd hsource (hapart fired hf created hc hfired.isEvent hcreated.isEvent)
  · exact absurd hsource.symm (hapart created hc fired hf hcreated.isEvent hfired.isEvent)
  · exact .inr ⟨fired, hf, created, hc, hfired, hcreated, hsource⟩

/-- A timer that is not reported to fire is not followed. -/
theorem Follows.reported (h : Follows records key next) :
    ∃ report ∈ reportsIn key records, report.intent = .triggered := by
  obtain ⟨fired, hf, -, -, hfired, -⟩ := h
  exact ⟨_, hfired.report hf, rfl⟩

theorem InChain.append {first : Nat} (h : InChain records first key) (new : List Record) :
    InChain (records ++ new) first key :=
  Relation.ReflTransGen.mono (fun _ _ hfollows => hfollows.append new) _ _ h

end Follows

/-- How far the chain of a first timer has come: these timers have fired, in this order, and this
one waits. -/
structure Chain (records : List Record) (cycle : TimerCycle) (start : Instant) (first : Nat)
    (fired : List Nat) (waiting : Option Nat) : Prop where
  starts : first ∈ fired ++ waiting.toList
  reached : ∀ key ∈ fired ++ waiting.toList, InChain records first key
  closed : ∀ key ∈ fired, ∀ next, Follows records key next → next ∈ fired ++ waiting.toList
  /-- The timers that have fired were due at the first firings of the cycle. -/
  dates : firedDates fired records =
    (List.range' 1 fired.length).map fun k => some (cycle.firing start k)
  /-- Each of them fired at a command that is no earlier. -/
  past : ∀ k, 0 < k → k ≤ fired.length → cycle.repetition.Reaches k ∧
    ∃ command ∈ records, command.isCommand = true ∧ cycle.firing start k ≤ command.timestamp
  spent : ∀ key ∈ fired, ∃ creation firing, reportsIn key records = [creation, firing]
  waits : ∀ key ∈ waiting, ∃ timer born, reportsIn key records = [⟨.created, some timer, born⟩] ∧
    timer.Awaits cycle start fired.length
  ended : waiting = none → ¬ cycle.repetition.Reaches (fired.length + 1)

namespace Chain

variable {records new : List Record} {cycle : TimerCycle} {start : Instant} {first key : Nat}
  {fired : List Nat} {waiting : Option Nat}

/-- A timer that waits is not followed. -/
theorem not_follows (h : Chain records cycle start first fired waiting) (hwaits : key ∈ waiting)
    (next : Nat) : ¬ Follows records key next := by
  intro hfollows
  obtain ⟨timer, born, hreports, -⟩ := h.waits key hwaits
  obtain ⟨report, hreport, hintent⟩ := hfollows.reported
  rw [hreports] at hreport
  rw [List.mem_singleton.mp hreport] at hintent
  cases hintent

/-- These timers are the chain. -/
theorem mem_iff (h : Chain records cycle start first fired waiting) (key : Nat) :
    key ∈ fired ++ waiting.toList ↔ InChain records first key := by
  refine ⟨h.reached key, fun hchain => ?_⟩
  induction hchain with
  | refl => exact h.starts
  | tail _ hfollows ih =>
      rcases List.mem_append.mp ih with hfired | hwaits
      · exact h.closed _ hfired _ hfollows
      · exact absurd hfollows (h.not_follows (Option.mem_toList.mp hwaits) _)

/-- **What reports nothing about the chain leaves it as it is.** -/
theorem keep (h : Chain records cycle start first fired waiting) (hapart : Apart records new)
    (hnone : ∀ key ∈ fired ++ waiting.toList, reportsIn key new = []) :
    Chain (records ++ new) cycle start first fired waiting := by
  have hsame : ∀ key ∈ fired ++ waiting.toList,
      reportsIn key (records ++ new) = reportsIn key records := by
    intro key hkey
    rw [reportsIn_append, hnone key hkey, List.append_nil]
  have hfired : ∀ key ∈ fired, key ∈ fired ++ waiting.toList :=
    fun key hkey => List.mem_append_left _ hkey
  refine ⟨h.starts, fun key hkey => (h.reached key hkey).append new, ?_, ?_, ?_, ?_, ?_, h.ended⟩
  · intro key hkey next hfollows
    rcases hfollows.cases hapart with hold | hnew
    · exact h.closed key hkey next hold
    · obtain ⟨report, hreport, -⟩ := hnew.reported
      rw [hnone key (hfired key hkey)] at hreport
      exact absurd hreport List.not_mem_nil
  · have hnew : firedDates fired new = firedDates [] new := by
      refine firedDates_subset nofun fun key hkey _ report hreport => ?_
      rw [hnone key (hfired key hkey)] at hreport
      exact absurd hreport List.not_mem_nil
    rw [firedDates_append, hnew, firedDates_nil, List.append_nil]
    exact h.dates
  · intro k hpos hle
    obtain ⟨hreached, command, hc, hcommand⟩ := h.past k hpos hle
    exact ⟨hreached, command, List.mem_append_left _ hc, hcommand⟩
  · intro key hkey
    rw [hsame key (hfired key hkey)]
    exact h.spent key hkey
  · intro key hkey
    rw [hsame key (List.mem_append_right _ (Option.mem_toList.mpr hkey))]
    exact h.waits key hkey

/-- **When the timer that waits fires, its successor waits**, if the cycle goes on. -/
theorem fire (h : Chain records cycle start first fired (some key)) (hapart : Apart records new)
    {timer : TimerPayload} {gone : Instant}
    (hawaits : timer.Awaits cycle start fired.length)
    (hold : ∀ other ∈ fired, reportsIn other new = [])
    (hfires : reportsIn key new = [⟨.triggered, some timer, gone⟩])
    (hpast : ∃ command ∈ records, command.isCommand = true ∧
      cycle.firing start (fired.length + 1) ≤ command.timestamp)
    {next : Option Nat} (hnext : ∀ other, Follows new key other ↔ other ∈ next)
    (hwaits : ∀ other ∈ next, ∃ timer born,
      reportsIn other (records ++ new) = [⟨.created, some timer, born⟩] ∧
        timer.Awaits cycle start (fired.length + 1))
    (hended : next = none → ¬ cycle.repetition.Reaches (fired.length + 2)) :
    Chain (records ++ new) cycle start first (fired ++ [key]) next := by
  obtain ⟨timer', born, hreports, hawaits'⟩ := h.waits key rfl
  have hchain : InChain (records ++ new) first key :=
    (h.reached key (List.mem_append_right _ (List.mem_singleton_self key))).append new
  have hlength : (fired ++ [key]).length = fired.length + 1 := List.length_append
  refine ⟨?_, ?_, ?_, ?_, ?_, ?_, ?_, ?_⟩
  · exact List.mem_append_left _ h.starts
  · intro other hother
    rcases List.mem_append.mp hother with hin | hin
    · exact (h.reached other hin).append new
    · obtain ⟨created, hc, fired', hf, hrest⟩ := (hnext other).mpr (Option.mem_toList.mp hin)
      exact hchain.tail ⟨created, List.mem_append_right _ hc, fired', List.mem_append_right _ hf,
        hrest⟩
  · intro other hother following hfollows
    rcases hfollows.cases hapart with hbefore | hnew <;>
      rcases List.mem_append.mp hother with hin | hin
    · exact List.mem_append_left _ (h.closed other hin following hbefore)
    · rw [List.mem_singleton.mp hin] at hbefore
      exact absurd hbefore (h.not_follows rfl following)
    · obtain ⟨report, hreport, -⟩ := hnew.reported
      rw [hold other hin] at hreport
      exact absurd hreport List.not_mem_nil
    · rw [List.mem_singleton.mp hin] at hnew
      exact List.mem_append_right _ (Option.mem_toList.mpr ((hnext following).mp hnew))
  · have hbefore : ∀ report ∈ reportsIn key records, report.intent ≠ .triggered := by
      rw [hreports]
      exact fun report hin => List.mem_singleton.mp hin ▸ nofun
    rw [firedDates_snoc hold hbefore hfires, h.dates, hlength, List.range'_1_concat,
      List.map_append, Nat.add_comm 1]
    exact congrArg _ (congrArg (fun dueDate => [dueDate]) hawaits.due)
  · intro k hpos hle
    rw [hlength] at hle
    rcases Nat.lt_or_eq_of_le hle with hlt | rfl
    · obtain ⟨hreached, command, hc, hcommand⟩ := h.past k hpos (Nat.le_of_lt_succ hlt)
      exact ⟨hreached, command, List.mem_append_left _ hc, hcommand⟩
    · obtain ⟨command, hc, hcommand⟩ := hpast
      exact ⟨hawaits.reached, command, List.mem_append_left _ hc, hcommand⟩
  · intro other hother
    rw [reportsIn_append]
    rcases List.mem_append.mp hother with hin | hin
    · rw [hold other hin, List.append_nil]
      exact h.spent other hin
    · rw [List.mem_singleton.mp hin, hreports, hfires]
      exact ⟨_, _, rfl⟩
  · rw [hlength]
    exact hwaits
  · rw [hlength]
    exact hended

end Chain

/-! ### What is accepted -/

/-- The command asks for a timer that repeats in this cycle. -/
def Record.AsksForCycle (evaluator : Evaluator) (command : Record) (cycle : TimerCycle) : Prop :=
  command.isCommand = true ∧ command.intent = .timer .create ∧
    ∃ request definition, command.value = .timer request ∧ request.definition = some definition ∧
      definition.plan evaluator request.vars = .ok (.every cycle)

section Accepted

variable {evaluator : Evaluator} {state final : EngineState} {command : Record} {answer : Event}
  {others : List Event} {records : List Record} {position : Nat}

/-- What is reported when a timer fires: this, and the creation of its successor. -/
def firingReports (timer : TimerPayload) (time : Instant) (key nextKey subject : Nat) :
    List TimerReport :=
  (if key = subject then [⟨.triggered, some timer, time⟩] else []) ++
    if nextKey = subject then timer.successor?.toList.map fun next => ⟨.created, some next, time⟩
    else []

theorem mem_firingReports_created {timer : TimerPayload} {payload : Option TimerPayload}
    {time time' : Instant} {key nextKey subject : Nat} :
    (⟨.created, payload, time'⟩ : TimerReport) ∈ firingReports timer time key nextKey subject ↔
      nextKey = subject ∧ ∃ next, timer.successor? = some next ∧ some next = payload ∧
        time = time' := by
  unfold firingReports
  rw [List.mem_append, List.mem_ite_nil_right, List.mem_ite_nil_right]
  constructor
  · rintro (⟨-, hin⟩ | ⟨hkey, hin⟩)
    · cases List.mem_singleton.mp hin
    · obtain ⟨next, hnext, heq⟩ := List.mem_map.mp hin
      cases heq
      exact ⟨hkey, next, Option.mem_toList.mp hnext, rfl, rfl⟩
  · rintro ⟨hkey, next, hnext, rfl, rfl⟩
    exact .inr ⟨hkey, List.mem_map.mpr ⟨next, Option.mem_toList.mpr hnext, rfl⟩⟩

/-- When a timer fires then this is reported. -/
theorem Accepted.reports_of_fired (h : Accepted evaluator state command final answer others)
    {key : Nat} {payload : Option TimerPayload} {time : Instant}
    (hfires : (⟨.triggered, payload, time⟩ : TimerReport) ∈
      timerReports key ((answer :: others).map (Event.told command))) :
    ∃ (timer : Timer) (nextKey : Nat), payload = some timer.toPayload ∧
      timer.dueDate ≤ command.timestamp ∧
      ∀ subject, timerReports subject ((answer :: others).map (Event.told command)) =
        firingReports timer.toPayload command.timestamp key nextKey subject := by
  obtain ⟨entry, hentry, hreport⟩ := List.mem_filterMap.mp hfires
  obtain ⟨event, he, rfl⟩ := List.mem_map.mp hentry
  obtain ⟨⟨htells, hkey⟩, hvalue, -⟩ := (timerReport?_eq_some _ _).mp hreport
  have hintent : (event.intent == .timer .triggered) = true := htells
  obtain ⟨subject, timer, -, hdue, rfl, rfl⟩ := h.timerFired_of_told he (beq_iff_eq.mp hintent)
  obtain ⟨nextKey, hsuccessors⟩ := scheduleSuccessor_tells
    (Decide.fireStart { state with timers := state.timers.erase subject } timer).1 timer
    command.position
  -- Only the answer tells of a firing, so it is about this timer.
  have honly : event ∈ [(⟨subject, .timer .triggered, .timer timer.toPayload⟩ : Event)] := by
    rw [← (filter_fired _ rfl Decide.intent_fireStart Decide.intent_scheduleSuccessor).1]
    exact List.mem_filter.mpr ⟨he, hintent⟩
  rw [List.mem_singleton.mp honly] at hkey hvalue
  cases hkey
  refine ⟨timer, nextKey, hvalue.symm, hdue, fun other => ?_⟩
  unfold firingReports
  rw [hsuccessors, ← List.singleton_append, List.map_append, List.map_append, timerReports_append,
    timerReports_append, timerReports_one, timerReports_other, List.nil_append]
  · refine congrArg _ ?_
    cases timer.toPayload.successor? with
    | none => exact (ite_self _).symm
    | some next => exact timerReports_one nextKey .created next
  · intro event he
    rw [Decide.intent_fireStart event he]
    exact nofun

end Accepted

/-- The records that an accepted command adds to a log. -/
structure Adds (evaluator : Evaluator) (state final : EngineState) (command : Record)
    (answer : Event) (others : List Event) (records new : List Record) : Prop where
  next : Partition.NextIn records command
  accepted : Accepted evaluator state command final answer others
  follow : ∃ position, new = Partition.follow position command (answer :: others)
  /-- With them the log reports what happened to the timers. -/
  told : ∀ key, TimerTold final key (reportsIn key (records ++ new))

namespace Adds

variable {evaluator : Evaluator} {state final : EngineState} {command : Record} {answer : Event}
  {others : List Event} {records new : List Record} {key : Nat}

theorem source (h : Adds evaluator state final command answer others records new)
    {record : Record} (hr : record ∈ new) : record.sourcePosition = some command.position := by
  obtain ⟨position, rfl⟩ := h.follow
  obtain ⟨event, -, hevent⟩ := List.mem_map.mp (Log.toDraft_mem_of_mem_numbered hr)
  exact (congrArg Draft.sourcePosition hevent).symm

/-- What follows the next command is apart from what is in the log. -/
theorem apart (h : Adds evaluator state final command answer others records new) :
    Apart records new := by
  intro early he late hl _ _ hsource
  rw [h.source hl] at hsource
  exact Nat.lt_irrefl _ (h.next.last early he _ hsource.symm)

theorem reports (h : Adds evaluator state final command answer others records new) (key : Nat) :
    reportsIn key new = timerReports key ((answer :: others).map (Event.told command)) := by
  obtain ⟨position, rfl⟩ := h.follow
  exact reportsIn_follow command (answer :: others) position

theorem told_append (h : Adds evaluator state final command answer others records new) (key : Nat) :
    TimerTold final key (reportsIn key records ++ reportsIn key new) := by
  rw [← reportsIn_append]
  exact h.told key

/-- A timer that is created with them has no earlier report. -/
theorem created_only (h : Adds evaluator state final command answer others records new)
    {timer : Option TimerPayload} {time : Instant}
    (hnew : ∃ before, reportsIn key new = before ++ [⟨.created, timer, time⟩]) :
    reportsIn key (records ++ new) = [⟨.created, timer, time⟩] := by
  obtain ⟨before, hnew⟩ := hnew
  have htold := h.told_append key
  rw [reportsIn_append]
  rw [hnew, ← List.append_assoc] at htold ⊢
  rw [htold.past_nil, List.nil_append]

/-- When a timer fires, it is followed by its successor if it has one. -/
theorem follows_iff (h : Adds evaluator state final command answer others records new)
    {timer : TimerPayload} {payload : Option TimerPayload} {time gone : Instant} {nextKey : Nat}
    (hfired : (⟨.triggered, payload, gone⟩ : TimerReport) ∈ reportsIn key new)
    (hreports : ∀ subject,
      reportsIn subject new = firingReports timer time key nextKey subject) (other : Nat) :
    Follows new key other ↔ nextKey = other ∧ timer.successor?.isSome = true := by
  constructor
  · rintro ⟨-, -, created, hc, -, hcreated, -⟩
    have hreport := hcreated.report hc
    rw [hreports other] at hreport
    obtain ⟨hkey, next, hnext, -⟩ := mem_firingReports_created.mp hreport
    exact ⟨hkey, Option.isSome_iff_exists.mpr ⟨next, hnext⟩⟩
  · rintro ⟨rfl, hsome⟩
    obtain ⟨next, hnext⟩ := Option.isSome_iff_exists.mp hsome
    have hcreated : (⟨.created, some next, time⟩ : TimerReport) ∈ reportsIn nextKey new := by
      rw [hreports nextKey]
      exact mem_firingReports_created.mpr ⟨rfl, next, hnext, rfl, rfl⟩
    obtain ⟨created, hc, htells, -⟩ := exists_of_mem_reportsIn hcreated
    obtain ⟨record, hr, hrecord, -⟩ := exists_of_mem_reportsIn hfired
    exact ⟨record, hr, created, hc, hrecord, htells, (h.source hc).trans (h.source hr).symm⟩

end Adds

namespace Chain

variable {evaluator : Evaluator} {state final : EngineState} {command : Record} {answer : Event}
  {others : List Event} {records new : List Record} {cycle : TimerCycle} {start : Instant}
  {first key : Nat} {fired : List Nat} {waiting : Option Nat}

/-- **A command that asks for a cycle starts a chain.** -/
theorem begun (hadds : Adds evaluator state final command answer others records new)
    (hasks : command.AsksForCycle evaluator cycle) (hrepeats : cycle.repetition.Reaches 1)
    {created : Record} (hc : created ∈ new) (htells : created.TellsTimer .created first) :
    Chain (records ++ new) cycle command.timestamp first [] (some first) := by
  obtain ⟨-, hintent, request, definition, hvalue, hdefinition, hplan⟩ := hasks
  have hreports := hadds.reports first
  have hreport := htells.report hc
  rw [hreports] at hreport
  cases hadds.accepted with
  | timerCreated request' definition' instanceKey elementInstanceKey owner resolved _ hvalue'
      hdefinition' _ _ _ hresolved =>
      cases hvalue.symm.trans hvalue'
      cases hdefinition.symm.trans hdefinition'
      unfold TimerDefinition.resolve at hresolved
      rw [hplan] at hresolved
      cases hresolved
      rw [timerReports_one] at hreport hreports
      obtain ⟨hkey, -⟩ := List.mem_ite_nil_right.mp hreport
      rw [if_pos hkey] at hreports
      have hwaits := hadds.created_only ⟨[], hreports⟩
      refine ⟨List.mem_singleton_self _, fun other hother => ?_, nofun, firedDates_nil _,
        fun k hpos hle => absurd hle (Nat.not_le.mpr hpos), nofun, fun other hother => ?_, nofun⟩
      · exact List.mem_singleton.mp hother ▸ .refl
      · cases hother
        exact ⟨_, _, hwaits, .first _ _ _ _ _ _ hrepeats⟩
  | timerUnresolved request' definition' instanceKey elementInstanceKey owner cause _ hvalue'
      hdefinition' _ _ _ hresolved =>
      cases hvalue.symm.trans hvalue'
      cases hdefinition.symm.trans hdefinition'
      unfold TimerDefinition.resolve at hresolved
      rw [hplan] at hresolved
      cases hresolved
  | _ =>
      have hother := hintent.symm.trans ‹command.intent = _›
      cases hother

/-- The timer that waits fires, and its successor waits if it has one. -/
theorem accepted_fired (h : Chain records cycle start first fired (some key))
    (hadds : Adds evaluator state final command answer others records new)
    (hold : ∀ other ∈ fired, reportsIn other new = []) {timer : TimerPayload} {gone : Instant}
    (hawaits : timer.Awaits cycle start fired.length)
    (hfires : reportsIn key new = [⟨.triggered, some timer, gone⟩]) :
    ∃ next, Chain (records ++ new) cycle start first (fired ++ [key]) next := by
  have hreport : (⟨.triggered, some timer, gone⟩ : TimerReport) ∈ reportsIn key new := by
    rw [hfires]
    exact List.mem_singleton_self _
  have htold := hreport
  rw [hadds.reports key] at htold
  obtain ⟨timer, nextKey, heq, hdue, hall⟩ := hadds.accepted.reports_of_fired htold
  cases heq
  have hreports := fun subject => (hadds.reports subject).trans (hall subject)
  have hpast : ∃ command ∈ records, command.isCommand = true ∧
      cycle.firing start (fired.length + 1) ≤ command.timestamp := by
    refine ⟨command, hadds.next.mem, hadds.next.kind, ?_⟩
    rw [← Option.some.inj hawaits.due]
    exact hdue
  have hfollows := fun other => hadds.follows_iff hreport hreports other
  rcases hawaits.successor with ⟨next, hsuccessor, hawaits'⟩ | ⟨hsuccessor, hend⟩
  · have hcreated : ∃ before,
        reportsIn nextKey new = before ++ [⟨.created, some next, command.timestamp⟩] := by
      rw [hreports nextKey, firingReports, if_pos rfl, hsuccessor]
      exact ⟨_, rfl⟩
    refine ⟨some nextKey, h.fire hadds.apart hawaits hold hfires hpast (fun other => ?_)
      (fun other hother => ?_) nofun⟩
    · rw [hfollows other, hsuccessor, Option.mem_some]
      exact and_iff_left rfl
    · cases hother
      exact ⟨next, command.timestamp, hadds.created_only hcreated, hawaits'⟩
  · refine ⟨none, h.fire hadds.apart hawaits hold hfires hpast (fun other => ?_) nofun
      fun _ => hend⟩
    rw [hfollows other, hsuccessor]
    exact ⟨fun hboth => absurd hboth.2 Bool.false_ne_true, nofun⟩

/-- **Whatever is accepted, the chain goes on**, unless one of its timers is canceled. -/
theorem accepted (h : Chain records cycle start first fired waiting)
    (hadds : Adds evaluator state final command answer others records new) :
    (∃ key ∈ fired ++ waiting.toList, ∃ record ∈ new, record.TellsTimer .canceled key) ∨
      ∃ fired waiting, Chain (records ++ new) cycle start first fired waiting := by
  have hold : ∀ key ∈ fired, reportsIn key new = [] := by
    intro key hkey
    obtain ⟨creation, firing, hreports⟩ := h.spent key hkey
    have hall := hadds.told_append key
    rw [hreports] at hall
    exact hall.rest_nil.1
  cases waiting with
  | none =>
      refine .inr ⟨fired, none, h.keep hadds.apart fun key hkey => ?_⟩
      rw [Option.toList_none, List.append_nil] at hkey
      exact hold key hkey
  | some key =>
      obtain ⟨timer, born, hreports, hawaits⟩ := h.waits key rfl
      have hall := hadds.told_append key
      rw [hreports, List.singleton_append] at hall
      rcases hall.after_created with hnone | ⟨gone, hcanceled⟩ | ⟨gone, hfires⟩
      · refine .inr ⟨fired, some key, h.keep hadds.apart fun other hother => ?_⟩
        rcases List.mem_append.mp hother with hin | hin
        · exact hold other hin
        · rw [List.mem_singleton.mp hin]
          exact hnone
      · have hreport : (⟨.canceled, some timer, gone⟩ : TimerReport) ∈ reportsIn key new := by
          rw [hcanceled]
          exact List.mem_singleton_self _
        obtain ⟨record, hr, htells, -⟩ := exists_of_mem_reportsIn hreport
        exact .inl ⟨key, List.mem_append_right _ (List.mem_singleton_self key), record, hr, htells⟩
      · obtain ⟨next, hchain⟩ := h.accepted_fired hadds hold hawaits hfires
        exact .inr ⟨fired ++ [key], next, hchain⟩

end Chain

end Workflow
