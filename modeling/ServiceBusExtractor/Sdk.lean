import ServiceBusExtractor.Body
import ServiceBusExtractor.Interaction.Hoare

/-!
# The surroundings of a run

Everything the extractor asks of the Service Bus SDK, of the clock and of the
platform's files, as calls of one signature.

## The model

* `Row` — what is fixed for a run: the validated configuration and the codec.
* `Call`, `Reply` — the calls and what each returns. SDK calls may raise a `Fault`
  and file calls a `FileError`; a reply that raises is an `Except.error`.
* `Note` — what a run leaves in its trace for the reader of this development:
  each warning it logs, and the verdicts its counters count.
* one definition for each SDK call, under the SDK's name.

## Honest scope

A peek, a receive or a settle is one call; the SDK's own retries are inside it.
Lines logged below WARNING are left out, and the ERROR line of a CSV that could not be
closed while the run was failing.
-/

namespace ServiceBusExtractor

open Interaction

/-- What is fixed for the run of one row. -/
structure Row where
  config : Configuration
  codec : Codec
  clientIdentifier : String := "kbc-local-root"
  authType : AuthType := .connectionString
  usesRowConnectionString : Bool := false
  secrets : List String := []
  isLegacyQueue : Bool := false

namespace Row

def entity (row : Row) : EntityRef := .fromSource row.config.source
def mode (row : Row) : SettlementMode := row.config.source.settlementMode
def sessions (row : Row) : Bool := row.config.source.sessionEnabled
def redact (row : Row) (text : String) : String := row.codec.redactSecrets row.secrets text

/-- `with_details`: the message with the error's text, concise and redacted. -/
def withDetails (row : Row) (message text : String) : Exn :=
  .user s!"{message} (details: {row.redact (row.codec.conciseDetails text)})"

/-- `to_user_exception` for an SDK error on the entity at `path`. -/
def toUserException (row : Row) (error : ServiceBusError) (path : String) : Exn :=
  let target := if path = "" then "" else s!" '{path}'"
  let ofTarget := if path = "" then "" else s!" of '{path}'"
  let message :=
    if error.credentialFailure then
      "The service principal credentials were rejected (check tenant ID, client ID and client secret)."
    else match error.kind with
      | .authentication =>
        (s!"Authentication to Azure Service Bus failed for{target}: the credentials are wrong, the entity " ++
          "does not exist, or the namespace's IP firewall rejected the Keboola stack (Service Bus reports " ++
          "all three as unauthorized). Check Listen rights, the entity name, and that the stack's egress " ++
          "IP addresses are allowed.")
      | .authorization =>
        (s!"The credentials lack the rights to read{target}: a connection string needs Listen; " ++
          "a service principal needs the 'Azure Service Bus Data Receiver' role.")
      | .entityNotFound => s!"The entity{target} was not found in the namespace."
      | .entityDisabled => s!"The entity{target} is disabled for receiving."
      | .serverBusy =>
        (s!"Azure Service Bus is throttling the namespace{ofTarget} (ServerBusy): it reached its throughput " ++
          "limit (Standard tier: about 1,000 operations per second shared by every client of the namespace). " ++
          "Try again later, run fewer consumers at once, or use the Premium tier.")
      | .connection | .communication =>
        (s!"Could not reach the Service Bus namespace for{target}. " ++
          "Check the host name and network access (outbound AMQP port 5671).")
      | _ =>
        if error.sessionRequired then s!"The entity{target} requires sessions: enable Sessions in the row."
        else if error.isSessionMismatch then
          s!"The entity{target} does not use sessions: disable Sessions in the row."
        else s!"Azure Service Bus reported an error for{target}."
  row.withDetails message error.text

end Row

/-! ### Calls -/

inductive ReceiveMode where
  | peekLock
  | receiveAndDelete
  deriving DecidableEq, Repr

/-- Which session a receiver asks for. -/
inductive SessionRequest where
  | none
  /-- `NEXT_AVAILABLE_SESSION`, waiting that many seconds. -/
  | nextAvailable (wait : ℤ)
  | named (sessionId : String)
  deriving DecidableEq, Repr

/-- The arguments of a `get_*_receiver` call. -/
structure ReceiverProfile where
  receiveMode : ReceiveMode
  prefetchCount : ℕ
  session : SessionRequest
  clientIdentifier : String
  keepAlive : ℕ := 0
  deriving DecidableEq, Repr

/-- A client or a receiver, as the SDK returned it. -/
abbrev Handle := ℕ

/-- The metadata columns of a row, before they are formatted. -/
structure Metadata where
  sequenceNumber : ℤ
  messageId : Option String
  enqueuedTimeUtc : Option Time
  sessionId : Option String
  contentType : Option String
  deliveryCount : Option ℕ
  state : MessageState
  expiresAtUtc : Option Time
  scheduledEnqueueTimeUtc : Option Time
  bodyType : BodyType
  sourceEntity : String
  settlementMode : SettlementMode
  extractedAtUtc : Time
  deriving DecidableEq, Repr

/-- One CSV record: the metadata and the cells of the body columns. -/
structure Record where
  metadata : Metadata
  cells : List (String × String)
  deriving DecidableEq, Repr

/-- What a manifest says of the output table. -/
structure TableDefinition where
  name : String
  columns : List String
  primaryKey : List String
  incremental : Bool
  writeAlways : Bool
  hasHeader : Bool := true
  deriving DecidableEq, Repr

/-- What the management plane says of an entity. -/
structure EntityMetadata where
  requiresSession : Option Bool := none
  partitioned : Option Bool := none
  maxDeliveryCount : Option ℕ := none
  counts : EntityCounts := {}
  deriving DecidableEq, Repr

inductive Call where
  | utcNow
  | monotonic
  | sleep (duration : Time)
  /-- How many throttled requests the SDK reported. -/
  | throttledRequests
  | loadMetadata (entity : EntityRef)
  /-- Build a data-plane client, with or without the SDK's retries. -/
  | dataClient (retries : Bool)
  | closeClient (client : Handle)
  | getReceiver (client : Handle) (entity : EntityRef) (profile : ReceiverProfile)
  | enterReceiver (receiver : Handle)
  | closeReceiver (receiver : Handle)
  | sessionId (receiver : Handle)
  | sessionLockedUntil (receiver : Handle)
  | renewSessionLock (receiver : Handle)
  | receiveMessages (receiver : Handle) (maxMessageCount : ℕ) (maxWaitTime : ℤ)
  | peekMessages (receiver : Handle) (maxMessageCount : ℕ) (sequenceNumber : ℤ)
  | receiveDeferredMessages (receiver : Handle) (sequenceNumbers : List ℤ) (timeout : ℤ)
  | completeMessage (receiver : Handle) (message : Message)
  | deferMessage (receiver : Handle) (message : Message)
  | abandonMessage (receiver : Handle) (message : Message)
  | deadLetterMessage (receiver : Handle) (message : Message) (reason description : String)
  | renewMessageLock (receiver : Handle) (message : Message)
  | writeManifest (definition : TableDefinition)
  /-- Open the CSV for writing. -/
  | createCsv
  /-- Write the header, flush and fsync. -/
  | writeHeader (columns : List String)
  /-- Write every record, flush and fsync. -/
  | writeRows (records : List Record)
  | closeCsv
  | writeStateFile (state : ExtractorState)

/-- What a call returns. -/
@[reducible] def Reply : Call → Type
  | .utcNow => Time
  | .monotonic => Time
  | .sleep _ => Unit
  | .throttledRequests => ℕ
  | .loadMetadata _ => Except Fault EntityMetadata
  | .dataClient _ => Except Fault Handle
  | .closeClient _ => Except Fault Unit
  | .getReceiver _ _ _ => Except Fault Handle
  | .enterReceiver _ => Except Fault Unit
  | .closeReceiver _ => Except Fault Unit
  | .sessionId _ => String
  | .sessionLockedUntil _ => Option Time
  | .renewSessionLock _ => Except Fault Unit
  | .receiveMessages _ _ _ => Except Fault (List Message)
  | .peekMessages _ _ _ => Except Fault (List Message)
  | .receiveDeferredMessages _ _ _ => Except Fault (List Message)
  | .completeMessage _ _ => Except Fault Unit
  | .deferMessage _ _ => Except Fault Unit
  | .abandonMessage _ _ => Except Fault Unit
  | .deadLetterMessage _ _ _ _ => Except Fault Unit
  | .renewMessageLock _ _ => Except Fault Unit
  | .writeManifest _ => Except FileError Unit
  | .createCsv => Except FileError Unit
  | .writeHeader _ => Except FileError Unit
  | .writeRows _ => Except FileError Unit
  | .closeCsv => Except FileError Unit
  | .writeStateFile _ => Except FileError Unit

/-- What became of an unreadable body: the disposition its counter counts. -/
inductive Disposition where
  | retry
  | failed
  | skipped
  | deadLettered
  | left
  deriving DecidableEq, Repr

/-- The disposition as the statistics name it. -/
def Disposition.value : Disposition → String
  | .retry => "retry"
  | .failed => "failed"
  | .skipped => "skipped"
  | .deadLettered => "dead_lettered"
  | .left => "left"

/-- What a run leaves in its trace beside its calls. -/
inductive Note where
  /-- A line logged at WARNING. -/
  | warning (text : String)
  /-- A body was judged unreadable. -/
  | unreadable (message : Message) (disposition : Disposition)
  /-- A peeked message was skipped as expired. -/
  | expired (message : Message)
  /-- A peeked message was skipped as pending activation. -/
  | pendingActivation (message : Message)
  /-- A connection failure was recovered from. -/
  | recovery
  /-- The connection was reopened for an unreadable body. -/
  | recycle
  /-- A session was handed out; the sessions seen before. -/
  | sessionOpened (sessionId : String) (seen : List String)

/-- The signature of a run. -/
@[reducible] def sdk : Signature where
  Call := Call
  Reply := Reply
  Note := Note

/-- A condition on events is decided call by call and note by note. -/
@[reducible] def decidableEvents {P : Event sdk → Prop} (hcall : ∀ c, ∀ a : Reply c, Decidable (P (.call c a)))
    (hnote : ∀ n, Decidable (P (.note n))) : DecidablePred P
  | .call c a => hcall c a
  | .note n => hnote n

/-- A program of the extractor over the state `W`. -/
abbrev Program (W α : Type) := Prog sdk W Exn α

section Calls

variable {W : Type}

/-- The reply of an SDK call, as a result of the program. -/
def sdkResult {α : Type} (r : Except Fault α) : Except Exn α := r.mapError .fault

/-- The reply of a file call, as a result of the program. -/
def fileResult {α : Type} (r : Except FileError α) : Except Exn α := r.mapError .file

@[simp] theorem sdkResult_ok {α : Type} (a : α) : sdkResult (.ok a) = .ok a := rfl

@[simp] theorem sdkResult_error {α : Type} (f : Fault) : sdkResult (.error f : Except Fault α) = .error (.fault f) :=
  rfl

@[simp] theorem fileResult_ok {α : Type} (a : α) : fileResult (.ok a) = .ok a := rfl

@[simp] theorem fileResult_error {α : Type} (e : FileError) :
    fileResult (.error e : Except FileError α) = .error (.file e) := rfl

def utcNow : Program W Time := Prog.perform (S := sdk) .utcNow
def monotonic : Program W Time := Prog.perform (S := sdk) .monotonic
def sleep (duration : Time) : Program W Unit := Prog.perform (S := sdk) (.sleep duration)
def throttledRequests : Program W ℕ := Prog.perform (S := sdk) .throttledRequests
def sessionId (receiver : Handle) : Program W String := Prog.perform (S := sdk) (.sessionId receiver)
def sessionLockedUntil (receiver : Handle) : Program W (Option Time) :=
  Prog.perform (S := sdk) (.sessionLockedUntil receiver)

def closeClient (client : Handle) : Program W Unit := Prog.request (S := sdk) (.closeClient client) sdkResult
def enterReceiverCall (receiver : Handle) : Program W Unit :=
  Prog.request (S := sdk) (.enterReceiver receiver) sdkResult
def closeReceiver (receiver : Handle) : Program W Unit := Prog.request (S := sdk) (.closeReceiver receiver) sdkResult
def renewSessionLock (receiver : Handle) : Program W Unit :=
  Prog.request (S := sdk) (.renewSessionLock receiver) sdkResult

def receiveMessages (receiver : Handle) (maxMessageCount : ℕ) (maxWaitTime : ℤ) : Program W (List Message) :=
  Prog.request (S := sdk) (.receiveMessages receiver maxMessageCount maxWaitTime) sdkResult

def peekMessages (receiver : Handle) (maxMessageCount : ℕ) (sequenceNumber : ℤ) : Program W (List Message) :=
  Prog.request (S := sdk) (.peekMessages receiver maxMessageCount sequenceNumber) sdkResult

def receiveDeferredMessages (receiver : Handle) (sequenceNumbers : List ℤ) (timeout : ℤ) :
    Program W (List Message) :=
  Prog.request (S := sdk) (.receiveDeferredMessages receiver sequenceNumbers timeout) sdkResult

def completeMessage (receiver : Handle) (message : Message) : Program W Unit :=
  Prog.request (S := sdk) (.completeMessage receiver message) sdkResult

def deferMessage (receiver : Handle) (message : Message) : Program W Unit :=
  Prog.request (S := sdk) (.deferMessage receiver message) sdkResult

def abandonMessage (receiver : Handle) (message : Message) : Program W Unit :=
  Prog.request (S := sdk) (.abandonMessage receiver message) sdkResult

def deadLetterMessage (receiver : Handle) (message : Message) (reason description : String) : Program W Unit :=
  Prog.request (S := sdk) (.deadLetterMessage receiver message reason description) sdkResult

def renewMessageLock (receiver : Handle) (message : Message) : Program W Unit :=
  Prog.request (S := sdk) (.renewMessageLock receiver message) sdkResult

/-- `load_entity_info`: whatever fails, the run goes on with the defaults. -/
def loadEntityInfo (entity : EntityRef) : Program W EntityInfo :=
  Prog.request (S := sdk) (.loadMetadata entity) fun
    | .error _ => .ok {}
    | .ok metadata => .ok {
        requiresSession := metadata.requiresSession
        partitioned := metadata.partitioned
        maxDeliveryCount := match metadata.maxDeliveryCount with
          | none | some 0 => 10
          | some n => n
        counts := some metadata.counts }

/-- A data-plane client: an invalid connection string or credential setting is the user's to fix. -/
def dataClient (row : Row) (retries : Bool) : Program W Handle :=
  Prog.request (S := sdk) (.dataClient retries) fun
    | .ok client => .ok client
    | .error (.valueError text) | .error (.alreadySettled text) => match row.authType with
      | .connectionString => .error (.user s!"Invalid connection string: {row.redact text}")
      | .servicePrincipal => .error (.user s!"Invalid service principal settings: {row.redact text}")
    | .error fault => .error (.fault fault)

/-- `receive_client`: every receive, peek and settle. -/
def receiveClient (row : Row) : Program W Handle := dataClient row true

/-- `commit_client`: the deferred receives, without the SDK's retries. -/
def commitClient (row : Row) : Program W Handle := dataClient row false

/-- `EntityRef.open_receiver`: a connection string scoped to another entity is the user's to fix. -/
def openReceiver (row : Row) (entity : EntityRef) (client : Handle) (profile : ReceiverProfile) : Program W Handle :=
  Prog.request (S := sdk) (.getReceiver client entity profile) fun
    | .ok receiver => .ok receiver
    | .error (.valueError text) | .error (.alreadySettled text) =>
      let key := if row.usesRowConnectionString then "The row connection string (#row_connection_string)"
        else "The connection string"
      .error (.user (s!"{key} is scoped to another entity (EntityPath) than '{entity.path}'. Use a namespace-level " ++
        s!"connection string or select the entity named in it. (details: {row.codec.redactSecrets [] text})"))
    | .error fault => .error (.fault fault)

end Calls

end ServiceBusExtractor
