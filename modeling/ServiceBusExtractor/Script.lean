import ServiceBusExtractor.Component
import ServiceBusExtractor.Flatten

/-!
# Scripted runs

Concrete runs need concrete replies. A script lists what each kind of call
returns, in order; once a list is over the call returns what an idle, healthy
namespace would.

## The model

* `Script` — the replies still to come; `Script.answer` — how it answers a call.
* `scripted p w script` — the trace of the run, `scriptedResult` its result; by
  `exec_scripted` it is a run of the program.
* `textCodec` — bodies of one character a byte, as the text format decodes them;
  `flattenCodec` — and objects of ASCII strings, flattened.
-/

namespace ServiceBusExtractor

open Interaction

/-- The replies still to come. -/
structure Script where
  /-- The next handle to give out. -/
  handle : Handle := 1
  now : Time := 0
  /-- The readings of the monotonic clock; then it stands still. -/
  ticks : List Time := []
  metadata : List (Except Fault EntityMetadata) := []
  enters : List (Except Fault Unit) := []
  sessionIds : List String := []
  receives : List (Except Fault (List Message)) := []
  peeks : List (Except Fault (List Message)) := []
  deferredReceives : List (Except Fault (List Message)) := []
  settles : List (Except Fault Unit) := []
  manifests : List (Except FileError Unit) := []
  headers : List (Except FileError Unit) := []

namespace Script

/-- The first reply of a list, and the default once it is over. -/
def next {α : Type} (replies : List α) (default : α) : α := replies.headD default

/-- How the script answers a call. -/
def answer : (c : Call) → Script → Reply c × Script
  | .utcNow, s => (s.now, s)
  | .monotonic, s => (next s.ticks 0, { s with ticks := s.ticks.tail })
  | .sleep _, s => ((), s)
  | .throttledRequests, s => (0, s)
  | .loadMetadata _, s => (next s.metadata (.ok {}), { s with metadata := s.metadata.tail })
  | .dataClient _, s => (.ok s.handle, { s with handle := s.handle + 1 })
  | .closeClient _, s => (.ok (), s)
  | .getReceiver .., s => (.ok s.handle, { s with handle := s.handle + 1 })
  | .enterReceiver _, s => (next s.enters (.ok ()), { s with enters := s.enters.tail })
  | .closeReceiver _, s => (.ok (), s)
  | .sessionId _, s => (next s.sessionIds "", { s with sessionIds := s.sessionIds.tail })
  | .sessionLockedUntil _, s => (none, s)
  | .renewSessionLock _, s => (.ok (), s)
  | .receiveMessages .., s => (next s.receives (.ok []), { s with receives := s.receives.tail })
  | .peekMessages .., s => (next s.peeks (.ok []), { s with peeks := s.peeks.tail })
  | .receiveDeferredMessages .., s =>
    (next s.deferredReceives (.ok []), { s with deferredReceives := s.deferredReceives.tail })
  | .completeMessage .., s | .deferMessage .., s | .abandonMessage .., s | .deadLetterMessage .., s
  | .renewMessageLock .., s => (next s.settles (.ok ()), { s with settles := s.settles.tail })
  | .writeManifest _, s => (next s.manifests (.ok ()), { s with manifests := s.manifests.tail })
  | .writeHeader _, s => (next s.headers (.ok ()), { s with headers := s.headers.tail })
  | .createCsv, s | .writeRows _, s | .closeCsv, s | .writeStateFile _, s => (.ok (), s)

end Script

variable {W α : Type}

/-- The trace of the scripted run. -/
def scripted (p : Program W α) (w : W) (script : Script) : Trace sdk := (simulate Script.answer (p w) script).1

/-- The result of the scripted run. -/
def scriptedResult (p : Program W α) (w : W) (script : Script) : Except Exn α :=
  (simulate Script.answer (p w) script).2.1.1

/-- The state the scripted run ends in. -/
def scriptedState (p : Program W α) (w : W) (script : Script) : W := (simulate Script.answer (p w) script).2.1.2

/-- A scripted run is a run. -/
theorem exec_scripted (p : Program W α) (w : W) (script : Script) :
    Prog.Exec p w (scripted p w script) (scriptedResult p w script) (scriptedState p w script) :=
  @runs_simulate sdk _ Script Script.answer (p w) script

/-- A scripted run ends as its result says. -/
theorem exec_of_scriptedResult {p : Program W α} {w : W} (script : Script) {r : Except Exn α}
    (h : scriptedResult p w script = r) : Prog.Exec p w (scripted p w script) r (scriptedState p w script) :=
  h ▸ exec_scripted p w script

/-- Bodies as the text format decodes them, one character a byte. -/
def textCodec : Codec where
  encodeBody message format := match message.body.sections, format with
    | .error error, _ => .error (.unreadable ⟨.unreadableBody, some error⟩)
    | .ok sections, .text =>
      .ok ⟨sections.flatten.length, .cell (String.ofList (sections.flatten.map fun byte => Char.ofNat byte.toNat))⟩
    | .ok _, _ => .error (.unreadable ⟨.notJson, none⟩)
  columnNameFor path := "body_" ++ "_".intercalate path
  pathHash path := ".".intercalate path
  compactJson fields := "\x7b" ++ ",".intercalate (fields.map fun field => field.1 ++ ":" ++ field.2) ++ "\x7d"
  formatTimestamp time := toString time
  sizeBytes state := 100 + (state.pendingCommit.map fun pe => pe.groups.length).sum
  redactSecrets _ text := text
  conciseDetails text := text

/-- The hashes of some paths. -/
def digests : List (JsonPath × String) :=
  [(["a"], "6b38d42036dacdcf081b8d1d0ee0c97b407c56c6"), (["b", "c"], "a5bfd7af5425efa90c4749c21672b5ecbdaaf6cc"),
    (["a b"], "d19dc7e3d07736eb09706460b9c67e069ddb225f"), (["a_b"], "9a0276427389065eb15b1d4b05d4c2b6c5bd2c79")]

/-- Python's text functions on these paths. -/
def asciiText : PythonText where
  sha1 bytes := ((digests.map fun entry => (utf8 (JsonText.dumpStrings JsonText.escapeChar entry.1), entry.2)).lookup
    bytes).getD ""
  fold text := text

/-- The fields of a body that is an object of strings. -/
def stringFields (bytes : List UInt8) : Option (List (JsonPath × String)) :=
  (JsonText.loadObject (String.ofList (bytes.map fun byte => Char.ofNat byte.toNat))).map fun entries =>
    flattenValue leafCell rootCell (.obj (entries.map fun entry => (entry.1, .str entry.2)))

/-- Objects of ASCII strings as the flattening format decodes them. -/
def flattenCodec : Codec where
  __ := textCodec
  encodeBody message format := match message.body.sections, format with
    | .ok sections, .jsonFlatten => match stringFields sections.flatten with
      | some fields => .ok ⟨sections.flatten.length, .fields fields⟩
      | none => .error (.unreadable ⟨.notJson, none⟩)
    | _, _ => textCodec.encodeBody message format
  columnNameFor := columnNameFor asciiText
  pathHash := pathHash asciiText
  compactJson := JsonText.dumpObject

theorem implements_flattenCodec : Implements flattenCodec asciiText := ⟨rfl, rfl, rfl⟩

/-- A body that is an object of strings. -/
def jsonBody (entries : List (String × String)) : MessageBody where
  sections := .ok [utf8 (JsonText.dumpObject entries)]

/-- A queue read in the given mode. -/
def queueSource (mode : SettlementMode) : SourceConfig where
  entityType := .queue
  queueName := some "q"
  settlementMode := mode

/-- A row that completes the messages of a queue. -/
def completeRow : Row where
  config := { source := queueSource .complete }
  codec := textCodec

/-- A row that completes the messages of a queue, at most two in a run. -/
def limitedRow : Row where
  config := { source := queueSource .complete, limits := { maxMessages := 2 } }
  codec := textCodec

/-- A row that completes the messages of a queue, and fails on an unreadable body. -/
def failingRow : Row where
  config := { source := queueSource .complete, body := { unreadableBody := .fail } }
  codec := textCodec

/-- A row that peeks a queue. -/
def peekRow : Row where
  config := { source := queueSource .peek }
  codec := textCodec

/-- A row that peeks a queue, at most three messages in a run. -/
def threeRow : Row where
  config := { source := queueSource .peek, limits := { maxMessages := 3 } }
  codec := textCodec

/-- A row that reads a queue from its first message in every run. -/
def fullFetchRow : Row where
  config := { source := { queueSource .peek with fetchMode := .fullFetch } }
  codec := textCodec

/-- A row that defers the messages of a queue and deletes them in its next run. -/
def deferRow : Row where
  config := { source := queueSource .deferCommit }
  codec := textCodec

/-- A row that completes the messages of a queue and flattens their bodies. -/
def flattenRow : Row where
  config := { source := queueSource .complete, body := { bodyFormat := .jsonFlatten } }
  codec := flattenCodec

/-- A row that completes the messages of a queue with sessions, at most `limit` messages in a run. -/
def sessionRow (limit : ℕ) : Row where
  config := { source := { queueSource .complete with sessionEnabled := true }, limits := { maxMessages := limit } }
  codec := textCodec

/-- A run of the row whose table is open. -/
def openedState (row : Row) (t0 : Time) : RunState where
  t0 := t0
  output := { columns := metadataColumnNames, definition := some (createDefinition row metadataColumnNames false),
              isOpen := true }

end ServiceBusExtractor
