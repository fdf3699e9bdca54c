import ServiceBusExtractor.State

/-!
# Messages and exceptions

What the SDK hands over: messages, and the exceptions its calls raise.

## The model

* `Message` — one received or peeked message. Receiving a message twice gives two
  values of this type: its delivery count, its lock and even whether its body can
  be read may differ.
* `ServiceBusError`, `Fault` — what an SDK call may raise; `Exn` — what the
  program may raise. Only the program itself raises `Exn.user`.

## Honest scope

Times are integers, in microseconds. Whether an error is a failed token
acquisition is a field of the error: the SDK's chain of causes is not modelled.
-/

namespace ServiceBusExtractor

/-- A wall-clock or monotonic time, in microseconds. -/
abbrev Time := ℤ

/-- A number of seconds as a time. -/
def seconds (n : ℤ) : Time := n * 1000000

inductive MessageState where
  | active
  | deferred
  | scheduled
  deriving DecidableEq, Repr

inductive BodyType where
  | data
  | value
  | sequence
  deriving DecidableEq, Repr

/-- The sections of a body as they came over the wire, or what reading them raises. -/
structure MessageBody where
  bodyType : BodyType := .data
  sections : Except String (List (List UInt8)) := .ok []

structure Message where
  sequenceNumber : ℤ
  messageId : Option String := none
  sessionId : Option String := none
  state : MessageState := .active
  deliveryCount : Option ℕ := none
  enqueuedTimeUtc : Option Time := none
  scheduledEnqueueTimeUtc : Option Time := none
  expiresAtUtc : Option Time := none
  lockedUntilUtc : Option Time := none
  contentType : Option String := none
  body : MessageBody := {}

/-- The number of the last message of a page. -/
def lastSequenceNumber (page : List Message) : ℤ := (page.getLast?.map Message.sequenceNumber).getD 0

/-! ### Exceptions -/

/-- The classes of SDK errors the program tells apart. -/
inductive ServiceBusErrorKind where
  | authentication
  | authorization
  | entityNotFound
  | entityDisabled
  | operationTimeout
  | sessionCannotBeLocked
  | messageLockLost
  | messageNotFound
  | serverBusy
  | connection
  | communication
  | other
  deriving DecidableEq, Repr

/-- The SDK's class name. -/
def ServiceBusErrorKind.className : ServiceBusErrorKind → String
  | .authentication => "ServiceBusAuthenticationError"
  | .authorization => "ServiceBusAuthorizationError"
  | .entityNotFound => "MessagingEntityNotFoundError"
  | .entityDisabled => "MessagingEntityDisabledError"
  | .operationTimeout => "OperationTimeoutError"
  | .sessionCannotBeLocked => "SessionCannotBeLockedError"
  | .messageLockLost => "MessageLockLostError"
  | .messageNotFound => "MessageNotFoundError"
  | .serverBusy => "ServiceBusServerBusyError"
  | .connection => "ServiceBusConnectionError"
  | .communication => "ServiceBusCommunicationError"
  | .other => "ServiceBusError"

structure ServiceBusError where
  kind : ServiceBusErrorKind
  text : String := ""
  /-- The service principal's token could not be acquired. -/
  credentialFailure : Bool := false
  deriving DecidableEq, Repr

/-- What an SDK call may raise. -/
inductive Fault where
  | serviceBus (error : ServiceBusError)
  /-- `MessageAlreadySettled`. -/
  | alreadySettled (text : String)
  | valueError (text : String)
  | other (name text : String)
  deriving DecidableEq, Repr

/-- What writing a file may raise. -/
structure FileError where
  name : String
  text : String := ""
  deriving DecidableEq, Repr

/-- What the program may raise. -/
inductive Exn where
  /-- `UserException`: a problem the user can fix; only the program raises it. -/
  | user (message : String)
  | fault (fault : Fault)
  | file (error : FileError)
  /-- A failed assertion or another error of the program's own. -/
  | program (name text : String)
  deriving DecidableEq, Repr

namespace Exn

def isUser : Exn → Bool
  | .user _ => true
  | _ => false

/-- The SDK error behind the exception. -/
def serviceBus? : Exn → Option ServiceBusError
  | .fault (.serviceBus error) => some error
  | _ => none

/-- It is an SDK error of the class. -/
def isKind (e : Exn) (kind : ServiceBusErrorKind) : Bool :=
  match e.serviceBus? with
  | some error => error.kind == kind
  | none => false

def className : Exn → String
  | .user _ => "UserException"
  | .fault (.serviceBus error) => error.kind.className
  | .fault (.alreadySettled _) => "MessageAlreadySettled"
  | .fault (.valueError _) => "ValueError"
  | .fault (.other name _) => name
  | .file error => error.name
  | .program name _ => name

def text : Exn → String
  | .user message => message
  | .fault (.serviceBus error) => error.text
  | .fault (.alreadySettled text) => text
  | .fault (.valueError text) => text
  | .fault (.other _ text) => text
  | .file error => error.text
  | .program _ text => text

end Exn

/-- One text contains another. -/
def hasText (part text : String) : Bool := (text.toList.tails.any fun t => part.toList.isPrefixOf t)

namespace ServiceBusError

/-- The SDK says that the entity requires sessions. -/
def sessionRequired (error : ServiceBusError) : Bool := hasText "requires sessions" error.text

/-- The row's Sessions setting does not match the entity. -/
def isSessionMismatch (error : ServiceBusError) : Bool :=
  error.sessionRequired || ["non-sessionful entity", "is not session", "session is not enabled",
    "not require sessions"].any fun marker => hasText marker error.text.toLower

/-- A configuration, credential or entity error: a fresh connection cannot fix it. -/
def isFatal (error : ServiceBusError) : Bool :=
  error.kind ∈ [.authentication, .authorization, .entityNotFound, .entityDisabled] || error.isSessionMismatch ||
    error.credentialFailure

end ServiceBusError

end ServiceBusExtractor
