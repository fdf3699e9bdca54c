import ServiceBusExtractor.Message

/-!
# Bodies and the flatten registry

How a message's body becomes cells, and the registry that gives each JSON path
its output column.

## The model

* `Codec` — the functions on texts and bytes the program computes with: decoding
  a body, naming a column, hashing a path, writing JSON, formatting a time. They
  are a parameter: nothing here depends on what they return.
* `FlattenRegistry` — the columns of the input state, those found in this run and
  the provisional names past the cap.

## Honest scope

`Codec.encodeBody` stands for `encode_body`, the body it is given included, and
the state's size in bytes for the length of its JSON text.
-/

namespace ServiceBusExtractor

def maxFlattenColumns : ℕ := 1000
def maxColumnName : ℕ := 64
def cellLimitBytes : ℕ := 16 * 1024 * 1024
def unmappedColumn : String := "body_unmapped"
def bodyColumn : String := "body"

/-- The keys from the root of a JSON value to one of its leaves. -/
abbrev JsonPath := List String

/-- Why a body is unreadable: one of `UNREADABLE_ERRORS`. -/
inductive UnreadableReason where
  | unreadableBody
  | notJson
  | bodyTooLarge
  deriving DecidableEq, Repr

/-- The reason as the statistics and the dead-letter reason name it. -/
def UnreadableReason.value : UnreadableReason → String
  | .unreadableBody => "UnreadableBody"
  | .notJson => "NotJson"
  | .bodyTooLarge => "BodyTooLarge"

/-- One of `UNREADABLE_ERRORS`, with the class of the exception it wraps. -/
structure UnreadableError where
  reason : UnreadableReason
  cause : Option String := none
  deriving DecidableEq, Repr

/-- The class named in the dead-letter description: the cause's, else the error's own. -/
def UnreadableError.description (error : UnreadableError) : String :=
  error.cause.getD (match error.reason with
    | .unreadableBody => "BodyDecodeError"
    | .notJson => "NotJsonError"
    | .bodyTooLarge => "BodyTooLargeError")

/-- What decoding a body may raise. -/
inductive BodyError where
  | unreadable (error : UnreadableError)
  /-- An exception that is none of `UNREADABLE_ERRORS`. -/
  | other (name text : String)
  deriving DecidableEq, Repr

/-- A decoded body: one cell, or one cell for each leaf path. -/
inductive EncodedContent where
  | cell (text : String)
  | fields (fields : List (JsonPath × String))
  deriving DecidableEq, Repr

structure EncodedBody where
  sizeBytes : ℕ
  content : EncodedContent
  deriving DecidableEq, Repr

/-- The text and byte functions of the program. -/
structure Codec where
  encodeBody : Message → BodyFormat → Except BodyError EncodedBody
  columnNameFor : JsonPath → String
  pathHash : JsonPath → String
  compactJson : List (String × String) → String
  formatTimestamp : Time → String
  /-- The size of a state file. -/
  sizeBytes : ExtractorState → ℕ
  /-- Mask the given secrets in a text. -/
  redactSecrets : List String → String → String
  /-- The meaningful part of an error text. -/
  conciseDetails : String → String

/-- The JSON-path to column-name registry of one run. -/
structure FlattenRegistry where
  byHash : List (String × String) := []
  inputOrder : List String := []
  provisional : List (String × String) := []
  taken : List String := []
  overflowed : Bool := false
  deriving DecidableEq, Repr

/-- Assign a value to a key, in place where the key is there and last where it is new. -/
def assign (key value : String) : List (String × String) → List (String × String)
  | [] => [(key, value)]
  | (k, v) :: rest => if k = key then (k, value) :: rest else (k, v) :: assign key value rest

namespace FlattenRegistry

/-- The registry at the start of a run: the columns of the input state, and the reserved names. -/
def seed (existing : List FlattenColumn) (reserved : List String) : FlattenRegistry where
  byHash := existing.foldl (fun byHash entry => assign entry.pathSha1 entry.column byHash) []
  inputOrder := existing.map FlattenColumn.pathSha1
  taken := reserved ++ unmappedColumn :: existing.map FlattenColumn.column

/-- `text[:stop]`; a negative `stop` counts from the end. -/
def sliceTo (text : List Char) (stop : ℤ) : List Char :=
  if 0 ≤ stop then text.take stop.toNat else text.take (text.length - (-stop).toNat)

/-- The first free name of `base`, `base_n`, `base_(n+1)`, …; one of them is free within as many
tries as there are taken names. -/
def freeName (base : String) (taken : List String) : ℕ → ℕ → String
  | 0, _ => base
  | tries + 1, n =>
    let suffix := s!"_{n}"
    let candidate := String.ofList (sliceTo base.toList ((maxColumnName : ℤ) - (suffix.length : ℤ))) ++ suffix
    if candidate ∈ taken then freeName base taken tries (n + 1) else candidate

def uniqueName (codec : Codec) (registry : FlattenRegistry) (path : JsonPath) : String :=
  let base := codec.columnNameFor path
  if base ∈ registry.taken then freeName base registry.taken (registry.taken.length + 1) 2 else base

/-- The name of a path, recorded for the next runs or, past the cap, for this run only. -/
def register (codec : Codec) (registry : FlattenRegistry) (path : JsonPath) : FlattenRegistry :=
  let h := codec.pathHash path
  if (registry.byHash.lookup h).isSome || (registry.provisional.lookup h).isSome then registry
  else
    let name := registry.uniqueName codec path
    if registry.byHash.length ≥ maxFlattenColumns then
      { registry with
        provisional := registry.provisional ++ [(h, name)]
        taken := registry.taken ++ [name]
        overflowed := true }
    else
      { registry with byHash := registry.byHash ++ [(h, name)], taken := registry.taken ++ [name] }

def inputColumns (registry : FlattenRegistry) : List String :=
  registry.inputOrder.map fun h => (registry.byHash.lookup h).getD ""

def toState (registry : FlattenRegistry) : List FlattenColumn :=
  registry.byHash.map fun entry => ⟨entry.1, entry.2⟩

/-- What splitting a row's fields raises. -/
inductive SplitError where
  | notRegistered (path : JsonPath)
  | tooLarge
  deriving DecidableEq, Repr

/-- The cells of the input columns and the cells of every other name, one field after the other. -/
def place (codec : Codec) (registry : FlattenRegistry) (cells : List (String × String) × List (String × String))
    (field : JsonPath × String) : Except SplitError (List (String × String) × List (String × String)) :=
  let h := codec.pathHash field.1
  match registry.byHash.lookup h, registry.provisional.lookup h with
  | some name, _ =>
    if h ∈ registry.inputOrder then .ok (assign name field.2 cells.1, cells.2)
    else .ok (cells.1, assign name field.2 cells.2)
  | none, some name => .ok (cells.1, assign name field.2 cells.2)
  | none, none => .error (.notRegistered field.1)

/-- The cells of the input columns and the text of the `body_unmapped` cell. -/
def split (codec : Codec) (registry : FlattenRegistry) (fields : List (JsonPath × String)) :
    Except SplitError (List (String × String) × String) := do
  let (values, unmapped) ← fields.foldlM (registry.place codec) ([], [])
  let text := if unmapped = [] then "" else codec.compactJson unmapped
  if text.utf8ByteSize > cellLimitBytes then .error .tooLarge else pure (values, text)

end FlattenRegistry

end ServiceBusExtractor
