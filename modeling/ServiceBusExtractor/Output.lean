import ServiceBusExtractor.Run

/-!
# The output table

One CSV and its manifest. The columns are fixed once, when the table is opened;
the manifest is written then, and again when `write_always` is armed.

## The model

* `openOutput`, `closeOutput` — the table's context manager.
* `armWriteAlways` — arm the manifest before anything is deleted.
* `rowRecord`, `writeRows` — from an output row to a CSV record.
-/

namespace ServiceBusExtractor

open Interaction

/-- The fixed columns of every table. -/
def metadataColumnNames : List String :=
  ["sequence_number", "message_id", "enqueued_time_utc", "enqueued_sequence_number", "session_id", "partition_key",
    "subject", "correlation_id", "content_type", "reply_to", "reply_to_session_id", "to_address",
    "application_properties", "delivery_count", "state", "time_to_live_seconds", "expires_at_utc",
    "scheduled_enqueue_time_utc", "dead_letter_reason", "dead_letter_error_description", "dead_letter_source",
    "body_type", "message_annotations", "amqp_durable", "amqp_priority", "amqp_first_acquirer", "amqp_user_id",
    "amqp_content_encoding", "amqp_creation_time_utc", "amqp_absolute_expiry_time_utc", "amqp_group_sequence",
    "amqp_reply_to_group_id", "source_entity", "settlement_mode", "extracted_at_utc"]

/-- One row for the table: the metadata and the encoded body. -/
structure OutputRow where
  metadata : Metadata
  content : EncodedContent
  deriving DecidableEq, Repr

/-- A failed assertion. -/
def assertionError (text : String) : Exn := .program "AssertionError" text

/-- `OutputTable._fixed_columns`. -/
def fixedColumns (row : Row) (registry : Option FlattenRegistry) : Except Exn (List String) :=
  match row.config.body.bodyFormat, registry with
  | .jsonFlatten, some registry => .ok (metadataColumnNames ++ registry.inputColumns ++ [unmappedColumn])
  | .jsonFlatten, none => .error (.program "ValueError" "json_flatten body format requires a FlattenRegistry")
  | _, _ => .ok (metadataColumnNames ++ [bodyColumn])

/-- The name of the output table: the configured one, or one derived from the entity. -/
def tableName (row : Row) : String :=
  let configured := row.config.destination.tableName
  if configured = "" then row.entity.defaultTableName else configured

/-- The manifest at the opening of the table. -/
def createDefinition (row : Row) (columns : List String) (writeAlways : Bool) : TableDefinition where
  name := s!"{tableName row}.csv"
  columns := columns
  primaryKey := row.config.destination.primaryKey.columns
  incremental := row.config.destination.incremental
  writeAlways := writeAlways

def writeManifest (definition : TableDefinition) : Run Unit :=
  Prog.request (S := sdk) (.writeManifest definition) fileResult

/-- Change the output table. -/
def updateOutput (change : OutputTable → OutputTable) : Run Unit := modify fun s => { s with output := change s.output }

/-- `OutputTable.open`: fix the columns, write the manifest, open the CSV and write its header. Where that fails the
file stays open: the table was not entered, so it is not left either. -/
def openOutput (row : Row) : Run Unit := do
  let s ← get
  let columns ← Prog.ofExcept (fixedColumns row s.registry)
  updateOutput fun output => { output with columns := columns }
  let definition := createDefinition row columns s.output.writeAlwaysArmed
  updateOutput fun output => { output with definition := some definition }
  writeManifest definition
  Prog.request (S := sdk) .createCsv fileResult
  updateOutput fun output => { output with isOpen := true }
  Prog.request (S := sdk) (.writeHeader columns) fileResult

/-- `OutputTable.arm_write_always`: the flag is set before the manifest is written. -/
def armWriteAlways : Run Unit := do
  let s ← get
  if s.output.writeAlwaysArmed then pure ()
  else match s.output.definition with
    | none => throw (assertionError "arm_write_always() called before open()")
    | some definition => do
      let armed := { definition with writeAlways := true }
      updateOutput fun output => { output with writeAlwaysArmed := true, definition := some armed }
      writeManifest armed

/-- What splitting a row that was not validated raises. -/
def splitExn : FlattenRegistry.SplitError → Exn
  | .notRegistered _ => .program "KeyError" "a path was never registered in this run"
  | .tooLarge => .program "BodyTooLargeError" s!"the body_unmapped cell exceeds the {cellLimitBytes}-byte cell limit"

/-- `OutputTable._row_record`. -/
def rowRecord (row : Row) (registry : Option FlattenRegistry) (output : OutputRow) : Except Exn Record :=
  match row.config.body.bodyFormat with
  | .jsonFlatten => match registry with
    | none => .error (assertionError "json_flatten body format requires a FlattenRegistry")
    | some registry =>
      let fields := match output.content with
        | .fields fields => fields
        | .cell _ => []
      match registry.split row.codec fields with
      | .error e => .error (splitExn e)
      | .ok (values, unmapped) => .ok ⟨output.metadata, assign unmappedColumn unmapped values⟩
  | _ =>
    let cell := match output.content with
      | .cell text => text
      | .fields _ => ""
    .ok ⟨output.metadata, [(bodyColumn, cell)]⟩

/-- `OutputTable.write_rows`: all rows, or an exception. -/
def writeRows (row : Row) (rows : List OutputRow) : Run Unit := do
  let s ← get
  Prog.when (s.output.isOpen = false) (throw (assertionError "write_rows() called before open()"))
  let records ← Prog.ofExcept (rows.mapM (rowRecord row s.registry))
  Prog.request (S := sdk) (.writeRows records) fileResult

/-- `OutputTable.close`: nothing where the CSV is not open. -/
def closeOutput : Run Unit := do
  let s ← get
  Prog.when (s.output.isOpen = true) do
    Prog.request (S := sdk) .closeCsv fileResult
    updateOutput fun output => { output with isOpen := false }

end ServiceBusExtractor
