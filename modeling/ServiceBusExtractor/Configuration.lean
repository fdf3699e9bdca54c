import Mathlib

/-!
# The row configuration

One configuration row extracts one entity. Every enumeration is an inductive
type; the bounds pydantic checks, the normalisation of the source section and
the two refused combinations are fields of the structures, so a `Configuration`
is a row that validation accepted.

## The model

* `SourceConfig`, `LimitsConfig`, `BodyConfig`, `DestinationConfig`,
  `AdvancedConfig` — the sections of the row, with their defaults.
* `Configuration` — the whole row, normalised and safe.

## Honest scope

Of the auth block only what a run reads is kept, in `Row`. Parsing the parameters
is not modelled here: a `Configuration` is what parsing returns.
-/

namespace ServiceBusExtractor

inductive AuthType where
  | connectionString
  | servicePrincipal
  deriving DecidableEq, Repr

inductive EntityType where
  | queue
  | subscription
  deriving DecidableEq, Repr

inductive SubQueue where
  | none
  | deadLetter
  | transferDeadLetter
  deriving DecidableEq, Repr

inductive SettlementMode where
  | complete
  | deferCommit
  | receiveAndDelete
  | peek
  deriving DecidableEq, Repr

/-- Peeking is the only mode that takes nothing off the entity. -/
def SettlementMode.isDestructive (mode : SettlementMode) : Bool := mode != .peek

inductive FetchMode where
  | incrementalFetch
  | fullFetch
  deriving DecidableEq, Repr

inductive BodyFormat where
  | text
  | base64
  | jsonFlatten
  deriving DecidableEq, Repr

inductive UnreadablePolicy where
  | deadLetter
  | leave
  | fail
  deriving DecidableEq, Repr

/-- The name of a policy in the configuration and in the log. -/
def UnreadablePolicy.value : UnreadablePolicy → String
  | .deadLetter => "dead_letter"
  | .leave => "leave"
  | .fail => "fail"

inductive LoadType where
  | incrementalLoad
  | fullLoad
  deriving DecidableEq, Repr

inductive PrimaryKey where
  | sequenceNumber
  | messageId
  | sourceEntitySequenceNumber
  deriving DecidableEq, Repr

def PrimaryKey.columns : PrimaryKey → List String
  | .sequenceNumber => ["sequence_number"]
  | .messageId => ["message_id"]
  | .sourceEntitySequenceNumber => ["source_entity", "sequence_number"]

structure SourceConfig where
  entityType : EntityType
  queueName : Option String := none
  topicName : Option String := none
  subscriptionName : Option String := none
  subQueue : SubQueue := .none
  sessionEnabled : Bool := false
  settlementMode : SettlementMode := .complete
  fetchMode : FetchMode := .incrementalFetch
  idleTimeoutSeconds : ℕ := 10
  idleTimeout_bounds : 1 ≤ idleTimeoutSeconds ∧ idleTimeoutSeconds ≤ 300 := by decide

structure LimitsConfig where
  /-- `0`: no limit. -/
  maxMessages : ℕ := 0
  stopAtJobStart : Bool := true

structure BodyConfig where
  bodyFormat : BodyFormat := .text
  unreadableBody : UnreadablePolicy := .deadLetter

structure DestinationConfig where
  tableName : String := ""
  loadType : LoadType := .incrementalLoad
  primaryKey : PrimaryKey := .sequenceNumber

def DestinationConfig.incremental (destination : DestinationConfig) : Bool :=
  destination.loadType == .incrementalLoad

structure AdvancedConfig where
  maxDurationSeconds : ℕ := 3000
  batchSize : ℕ := 100
  prefetchCount : ℕ := 1
  recoveryWaitSeconds : ℕ := 0
  maxDuration_bounds : 60 ≤ maxDurationSeconds ∧ maxDurationSeconds ≤ 43200 := by decide
  batchSize_bounds : 1 ≤ batchSize ∧ batchSize ≤ 5000 := by decide
  prefetchCount_bounds : 1 ≤ prefetchCount ∧ prefetchCount ≤ 1000 := by decide
  recoveryWait_bounds : recoveryWaitSeconds ≤ 330 := by decide

/-- `AdvancedConfig()`. -/
abbrev AdvancedConfig.defaults : AdvancedConfig := {}

/-- A row that validation accepted: `_normalise_source` cleared the names of the other entity type,
the fetch mode outside peek mode and the sessions of a sub-queue, and `_refuse_unsafe` refused a
receive_and_delete row with a prefetch above 1 and an incremental peek of sessions or sub-queues. -/
structure Configuration where
  source : SourceConfig
  limits : LimitsConfig := {}
  body : BodyConfig := {}
  destination : DestinationConfig := {}
  advanced : AdvancedConfig := .defaults
  queue_named : source.entityType = .queue →
    source.queueName ≠ none ∧ source.topicName = none ∧ source.subscriptionName = none := by decide
  subscription_named : source.entityType = .subscription →
    source.topicName ≠ none ∧ source.subscriptionName ≠ none ∧ source.queueName = none := by decide
  fetchMode_normal : source.settlementMode ≠ .peek → source.fetchMode = .incrementalFetch := by decide
  sessions_normal : source.subQueue ≠ .none → source.sessionEnabled = false := by decide
  prefetch_safe : source.settlementMode = .receiveAndDelete → advanced.prefetchCount = 1 := by decide
  peek_safe : source.settlementMode = .peek → source.fetchMode = .incrementalFetch →
    source.sessionEnabled = false ∧ source.subQueue = .none := by decide

end ServiceBusExtractor
