import Tally.Lib.Dict
import Tally.Lib.Effect
import Tally.Poolset
import Mathlib

/-!
# Leases: data model

The records of `lease.rs` and the parts of `config.rs` that the lease engine reads. Instants are
integers counting nanoseconds and durations are natural numbers of nanoseconds. A rendered
timestamp (RFC 3339 with milliseconds) is represented by the instant that it denotes, which is why
`timestamp` truncates; `parseTimestamp` says which of them can be parsed back.

chrono panics where a duration or an instant leaves its range. A panic unwinds through the call like
an error does, and what was written before it stays.
-/

namespace Tally.Lease

/-- Nanoseconds since the epoch. -/
abbrev Time := Int

/-- `u64::MAX`. -/
def u64Max : Nat := 2 ^ 64 - 1

/-- `i64::MAX`. -/
def i64Max : Nat := 2 ^ 63 - 1

def nanosPerMilli : Nat := 1000000

def nanosPerSec : Nat := 1000000000

/-- The instant denoted by the rendered timestamp of `now`: whole milliseconds. -/
def timestamp (now : Time) : Time := now / nanosPerMilli * nanosPerMilli

/-- `DateTime::<Utc>::MAX_UTC`, at the end of the year 262142. -/
def maxUtc : Time := 8210266876799 * nanosPerSec + 999999999

/-- The beginning of the year 0. -/
def yearZero : Time := -62167219200 * nanosPerSec

/-- The beginning of the year 10000. -/
def yearTenThousand : Time := 253402300800 * nanosPerSec

/-! ## Configuration -/

inductive Priority
  | interrupt
  | high
  | medium
  | low
  deriving DecidableEq, Repr

def Priority.rank : Priority → Nat
  | .interrupt => 1000
  | .high => 100
  | .medium => 50
  | .low => 10

inductive ResourceKind
  | vram
  | buildSlot
  | cpuSlot
  | slot
  | budget
  | mutex
  deriving DecidableEq, Repr

structure WindowedConsumptionPredicate where
  windowSec : Nat
  consumptionCap : Nat
  deriving DecidableEq, Repr

inductive PoolPredicate
  | coResidency
  | windowedConsumption (window : WindowedConsumptionPredicate)
  deriving DecidableEq, Repr

def PoolPredicate.isCoResidency : PoolPredicate → Bool
  | .coResidency => true
  | .windowedConsumption _ => false

def PoolPredicate.isWindowed : PoolPredicate → Bool
  | .coResidency => false
  | .windowedConsumption _ => true

structure PoolConfig where
  resource : Option ResourceKind := none
  capacity : Nat := 1
  predicate : PoolPredicate := .coResidency
  hardPreempt : Bool := false
  deriving DecidableEq, Repr

/-- The effective resource kind: an undeclared resource reads as `vram`. -/
def PoolConfig.resourceKind (config : PoolConfig) : ResourceKind := config.resource.getD .vram

/-! ## Campaign pools -/

def campaignPoolPrefix : String := "campaign/"

def safeCampaignPoolComponent (value : List Char) : Bool :=
  !value.isEmpty && value != ['.'] && value != ['.', '.'] &&
    value.all fun c => c.isAlphanum || c == '_' || c == '.' || c == '-'

/-- Exactly `campaign/<owner>/<repo>`. -/
def isCampaignPoolName (name : String) : Bool :=
  match name.toList.splitOn '/' with
  | [campaign, owner, repository] =>
    campaign == "campaign".toList && safeCampaignPoolComponent owner &&
      safeCampaignPoolComponent repository
  | _ => false

def campaignMutexConfig : PoolConfig :=
  { resource := some .mutex, capacity := 1, predicate := .coResidency }

/-! ## Requests, grants and events -/

inductive LeaseSchedulingGroup
  | flow (id : String)
  | parent (id : String)
  | standalone
  deriving DecidableEq, Repr

structure LeaseRequest where
  jobId : String
  unit : String
  pools : List String
  priority : Priority
  admissionKey : Option String := none
  consumptionEstimate : Option Nat := none
  schedulingGroup : LeaseSchedulingGroup := .standalone
  deriving DecidableEq, Repr

structure LeaseGrant where
  leaseId : String
  jobId : String
  unit : String
  pools : List String
  priority : Priority
  epoch : Nat
  grantedAt : Time
  admissionKey : Option String
  consumptionEstimate : Option Nat
  deriving DecidableEq, Repr

inductive AdmitOutcome
  | granted (grant : LeaseGrant)
  | queued (ticketId : String) (position : Nat)
  deriving DecidableEq, Repr

structure ReleaseOutcome where
  released : LeaseGrant
  promoted : List LeaseGrant
  deriving DecidableEq, Repr

structure TickOutcome where
  preempted : List LeaseGrant
  promoted : List LeaseGrant
  deriving DecidableEq, Repr

structure LeaseStatus where
  leaseId : String
  epoch : Nat
  held : Bool
  yieldRequested : Bool
  yieldDeadline : Option Time
  deriving DecidableEq, Repr

structure BudgetDebit where
  pool : String
  amount : Nat
  admittedAt : Time
  deriving DecidableEq, Repr

inductive LeaseEventKind
  | granted (grant : LeaseGrant) (budgetDebits : List BudgetDebit)
  | released (leaseId : String)
  | yieldRequested (leaseId byTicket : String) (deadline : Time)
  | preempted (leaseId : String)
  deriving DecidableEq, Repr

structure LeaseEvent where
  schemaVersion : Nat
  observedAt : Time
  epoch : Nat
  event : LeaseEventKind
  deriving DecidableEq, Repr

inductive LeaseError
  | invalidRequest (message : String)
  | unknownPool (pool : String)
  | notFound (leaseId : String)
  | staleEpoch (presented current : Nat)
  | eventVersion (version : Nat)
  | io
  | json
  /-- No error of the source: chrono has panicked. -/
  | panicked
  deriving DecidableEq, Repr

/-- `DateTime + Duration`. -/
def addDuration (time : Time) (duration : Int) : Except LeaseError Time :=
  if time + duration ≤ maxUtc then .ok (time + duration) else .error .panicked

/-- `DateTime::parse_from_rfc3339` on a rendered timestamp: it reads years of four digits only. -/
def parseTimestamp (stamp : Time) : Except LeaseError Time :=
  if yearZero ≤ stamp ∧ stamp < yearTenThousand then .ok stamp
  else .error (.invalidRequest "invalid debit time: input contains invalid characters")

/-! ## The event log

An append may succeed, fail without a trace, or fail after the line has reached the file (the
`sync_all` that follows the write may be what fails). It may also fail with part of the line in the
file: `write_all` stops somewhere inside it, or just before its newline. `fates` schedules what
happens to the next appends, in order, and every append after the end of the schedule succeeds. -/

inductive AppendFate
  | written
  | lost
  | indeterminate
  | unterminated
  | torn
  deriving DecidableEq, Repr

structure LeaseEventLog where
  /-- The events whose text has reached the file whole. -/
  lines : List LeaseEvent := []
  /-- The file does not end in a newline. -/
  unterminated : Bool := false
  /-- Some line of the file is not the text of one event. -/
  garbled : Bool := false
  fates : List AppendFate := []
  deriving DecidableEq, Repr

/-- The whole line reaches the file. It continues the line before it if that has no newline. -/
def LeaseEventLog.push (log : LeaseEventLog) (event : LeaseEvent) : LeaseEventLog :=
  { log with
    lines := log.lines ++ [event], unterminated := false
    garbled := log.garbled || log.unterminated }

def LeaseEventLog.append (log : LeaseEventLog) (event : LeaseEvent) :
    Except LeaseError Unit × LeaseEventLog :=
  match log.fates with
  | [] => (.ok (), log.push event)
  | .written :: fates => (.ok (), { log.push event with fates })
  | .lost :: fates => (.error .io, { log with fates })
  | .indeterminate :: fates => (.error .io, { log.push event with fates })
  | .unterminated :: fates => (.error .io, { log.push event with unterminated := true, fates })
  | .torn :: fates => (.error .io, { log with unterminated := true, garbled := true, fates })

/-! ## Engine state -/

structure YieldDemand where
  deadline : Time
  hardReclaim : Bool
  pools : Finset String
  deriving DecidableEq

structure YieldIntent where
  hardReclaim : Bool
  pools : Finset String
  deriving DecidableEq

structure HeldLease where
  grant : LeaseGrant
  yieldDemands : Dict String YieldDemand

structure PendingRequest where
  ticketId : String
  sequence : Nat
  admittedAt : Time
  effectiveRank : Nat
  request : LeaseRequest
  deriving DecidableEq, Repr

structure RuntimePool where
  config : PoolConfig
  holders : Finset String := ∅
  debits : List BudgetDebit := []

/-- How a ticket can come to its end. -/
inductive Finish
  | released
  | preempted
  | cancelled
  deriving DecidableEq, Repr

/-- Ghost: what the engine did, for statements about whole histories. No operation reads it. A
grant is noted with its debits and with the lines that the log held before it. -/
inductive TraceEntry
  | granted (now : Time) (ticketId : String) (request : LeaseRequest) (debits : List BudgetDebit)
    (earlier : List LeaseEvent)
  | reconciled (now : Time) (held : Dict String HeldLease)
  | finished (how : Finish) (ticketId : String)

structure LeaseEngine where
  epoch : Nat
  yieldGrace : Nat
  agingThreshold : Nat
  pools : Dict String RuntimePool
  held : Dict String HeldLease := ∅
  pending : List PendingRequest := []
  debitedAdmissions : Finset String := ∅
  nextSequence : Nat := 1
  events : Option LeaseEventLog
  /-- Ghost: newest entry first. -/
  trace : List TraceEntry := []

abbrev EngineM := Eff LeaseError LeaseEngine

/-- `format!("lease-{epoch}-{sequence}")`. -/
def leaseTicket (epoch sequence : Nat) : String :=
  "lease-" ++ epoch.repr ++ "-" ++ sequence.repr

theorem leaseTicket_inj {epoch m n : Nat} : leaseTicket epoch m = leaseTicket epoch n ↔ m = n := by
  simp [leaseTicket, Nat.repr_inj]

theorem takeWhile_repr (n : Nat) (rest : List Char) :
    (n.repr.toList ++ '-' :: rest).takeWhile (· ≠ '-') = n.repr.toList := by
  rw [List.takeWhile_append_of_pos, List.takeWhile_cons_of_neg (by simp), List.append_nil]
  intro c hc
  rw [Nat.toList_repr] at hc
  have hdigit := Nat.isDigit_of_mem_toDigits (by decide) (by decide) hc
  have hne : c ≠ '-' := by
    rintro rfl
    exact absurd hdigit (by decide)
  simpa using hne

/-- Tickets of different epochs are different. -/
theorem leaseTicket_epoch {e e' m n : Nat} (h : leaseTicket e m = leaseTicket e' n) : e = e' := by
  have hlist := congrArg String.toList h
  simp only [leaseTicket, String.toList_append, List.append_assoc, List.append_cancel_left_eq] at hlist
  have htake := congrArg (List.takeWhile (· ≠ '-')) hlist
  rw [show "-".toList = ['-'] from rfl, List.singleton_append, List.singleton_append,
    takeWhile_repr, takeWhile_repr] at htake
  exact Nat.repr_inj.mp (String.toList_injective htake)

end Tally.Lease
