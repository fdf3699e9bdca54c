import ServiceBusExtractor.Configuration

/-!
# The source entity

The identity of the row's entity and what the management plane, or the sequence
numbers seen so far, say about it.

## The model

* `EntityRef` — a queue or a subscription, or one of their sub-queues.
* `EntityInfo` — partitioning, the delivery limit and the message counts.
* `partitionOf` — the partition in the top sixteen bits of a sequence number.
-/

namespace ServiceBusExtractor

/-- The partition a sequence number of a partitioned entity carries. -/
def partitionOf (sequenceNumber : ℤ) : ℤ := sequenceNumber / 2 ^ 48

structure EntityRef where
  entityType : EntityType
  queueName : Option String := none
  topicName : Option String := none
  subscriptionName : Option String := none
  subQueue : SubQueue := .none
  deriving DecidableEq, Repr

namespace EntityRef

def fromSource (source : SourceConfig) : EntityRef where
  entityType := source.entityType
  queueName := source.queueName
  topicName := source.topicName
  subscriptionName := source.subscriptionName
  subQueue := source.subQueue

/-- The SDK path without any sub-queue suffix; a formatted `None` is the text `None`. -/
def mainPath (entity : EntityRef) : String :=
  match entity.entityType with
  | .queue => entity.queueName.getD ""
  | .subscription => entity.topicName.getD "None" ++ "/Subscriptions/" ++ entity.subscriptionName.getD "None"

def isSubQueue (entity : EntityRef) : Bool := entity.subQueue != .none

end EntityRef

/-- What the path of a sub-queue ends in. -/
def SubQueue.suffix : SubQueue → String
  | .none => ""
  | .deadLetter => "/$DeadLetterQueue"
  | .transferDeadLetter => "/$Transfer/$DeadLetterQueue"

namespace EntityRef

def path (entity : EntityRef) : String := entity.mainPath ++ entity.subQueue.suffix

/-- A character a table name may hold; any other becomes `_`. -/
def tableNameChar (c : Char) : Bool := c.isAlphanum || c == '_' || c == '-'

/-- The table name derived from the entity's names: joined, sanitised, trimmed. -/
def defaultTableName (entity : EntityRef) : String :=
  let names := match entity.entityType with
    | .queue => [entity.queueName.getD ""]
    | .subscription => [entity.topicName.getD "", entity.subscriptionName.getD ""]
  let parts := names ++ match entity.subQueue with
    | .none => []
    | .deadLetter => ["dead_letter"]
    | .transferDeadLetter => ["transfer_dead_letter"]
  let sanitised := ("_".intercalate parts).toList.map fun c => if tableNameChar c then c else '_'
  let trimmed := ((sanitised.dropWhile fun c => c == '_' || c == '-').reverse.dropWhile
    fun c => c == '_' || c == '-').reverse
  if trimmed = [] then "messages" else String.ofList trimmed

end EntityRef

/-- The message counts of the management plane. -/
structure EntityCounts where
  active : ℕ := 0
  deadLetter : ℕ := 0
  scheduled : ℕ := 0
  transferDeadLetter : ℕ := 0
  deriving DecidableEq, Repr

/-- The metadata of the entity; the defaults stand for a management plane that could not be read. -/
structure EntityInfo where
  requiresSession : Option Bool := none
  partitioned : Option Bool := none
  maxDeliveryCount : ℤ := 10
  counts : Option EntityCounts := none
  seenPartitioned : Bool := false
  deriving DecidableEq, Repr

namespace EntityInfo

/-- A sequence number with a partition shows that the entity has some. -/
def noteSequenceNumber (info : EntityInfo) (seq : ℤ) : EntityInfo :=
  if partitionOf seq ≠ 0 then { info with seenPartitioned := true } else info

def isPartitioned (info : EntityInfo) : Bool := info.partitioned == some true || info.seenPartitioned

def orphanGuardThreshold (info : EntityInfo) : ℤ := info.maxDeliveryCount - 1

@[simp] theorem partitioned_noteSequenceNumber (info : EntityInfo) (seq : ℤ) :
    (info.noteSequenceNumber seq).partitioned = info.partitioned := by
  unfold noteSequenceNumber
  split <;> rfl

@[simp] theorem maxDeliveryCount_noteSequenceNumber (info : EntityInfo) (seq : ℤ) :
    (info.noteSequenceNumber seq).maxDeliveryCount = info.maxDeliveryCount := by
  unfold noteSequenceNumber
  split <;> rfl

/-- A number of the first partition tells nothing. -/
theorem noteSequenceNumber_of_plain (info : EntityInfo) {seq : ℤ} (h : partitionOf seq = 0) :
    info.noteSequenceNumber seq = info := by
  simp [noteSequenceNumber, h]

end EntityInfo

end ServiceBusExtractor
