import ServiceBusExtractor.Configuration
import ServiceBusExtractor.Pydantic

/-!
# From the parameters to the row configuration

The platform merges the parameters of the configuration root and of the row into
one JSON object. Each section checks its own fields; the rules that follow
normalise the source, gate the advanced section and refuse what is unsafe.

## The model

* `AuthConfiguration` — the root's auth block.
* `SourceConfig.validate`, `LimitsConfig.validate`, … — the fields of each section.
* `normaliseSource`, `applyAdvancedGate`, `refuseUnsafe`, `validateTableName` —
  the rules of the whole row, in their order.
* `Configuration.validate` — from the parameters to an accepted row.

## What is proved

`validate_ok`: what an accepted row is.

## Honest scope

The texts of the library's own errors are not modelled: `FieldError` says where an
error is and of which kind.
-/

namespace ServiceBusExtractor

open Pydantic

/-! ### The names of the enumerations -/

def AuthType.values : List (String × AuthType) :=
  [("connection_string", .connectionString), ("service_principal", .servicePrincipal)]

def EntityType.values : List (String × EntityType) := [("queue", .queue), ("subscription", .subscription)]

def SubQueue.values : List (String × SubQueue) :=
  [("none", .none), ("dead_letter", .deadLetter), ("transfer_dead_letter", .transferDeadLetter)]

def SettlementMode.values : List (String × SettlementMode) :=
  [("complete", .complete), ("defer_commit", .deferCommit), ("receive_and_delete", .receiveAndDelete), ("peek", .peek)]

def FetchMode.values : List (String × FetchMode) :=
  [("incremental_fetch", .incrementalFetch), ("full_fetch", .fullFetch)]

def BodyFormat.values : List (String × BodyFormat) :=
  [("text", .text), ("base64", .base64), ("json_flatten", .jsonFlatten)]

def UnreadablePolicy.values : List (String × UnreadablePolicy) :=
  [("dead_letter", .deadLetter), ("leave", .leave), ("fail", .fail)]

def LoadType.values : List (String × LoadType) :=
  [("incremental_load", .incrementalLoad), ("full_load", .fullLoad)]

def PrimaryKey.values : List (String × PrimaryKey) :=
  [("sequence_number", .sequenceNumber), ("message_id", .messageId),
    ("source_entity_sequence_number", .sourceEntitySequenceNumber)]

/-! ### The auth block -/

structure AuthConfiguration where
  authType : AuthType := .connectionString
  connectionString : String := ""
  tenantId : String := ""
  clientId : String := ""
  clientSecret : String := ""
  fullyQualifiedNamespace : String := ""
  rowConnectionString : String := ""
  deriving DecidableEq, Repr

namespace AuthConfiguration

/-- The characters that Python's `str.strip` takes off. -/
def isSpace (c : Char) : Bool :=
  let n := c.toNat
  (9 ≤ n && n ≤ 13) || (28 ≤ n && n ≤ 32) || n == 133 || n == 160 || n == 5760 || (8192 ≤ n && n ≤ 8202) ||
    n == 8232 || n == 8233 || n == 8239 || n == 8287 || n == 12288

def strip (text : String) : String :=
  String.ofList ((text.toList.dropWhile isSpace).reverse.dropWhile isSpace).reverse

/-- `_normalise_row_connection_string`, then the check of the field. -/
def readRowConnectionString : Read String
  | .null => .ok ""
  | .str text => .ok (strip text)
  | v => readString v

/-- A field that is also known by its name without the `#`; its alias comes first. -/
def aliased (get : Fields) (key : String) (read : Read String) : Validated String :=
  match get ("#" ++ key) with
  | some v => checked ("#" ++ key) read v
  | none => field get key "" read

/-- The fields of the auth block. -/
def fields (get : Fields) : Validated AuthConfiguration :=
  (fun ((auth, connection), (tenant, client), (secret, ns), row) =>
    ⟨auth, connection, tenant, client, secret, ns, row⟩) <$>
    ((field get "auth_type" .connectionString (readEnum AuthType.values)).both
      (aliased get "connection_string" readString)).both
    (((field get "tenant_id" "" readString).both (field get "client_id" "" readString)).both
    (((aliased get "client_secret" readString).both (field get "fully_qualified_namespace" "" readString)).both
      (aliased get "row_connection_string" readRowConnectionString)))

/-- The auth block reads nothing of the row's sections. -/
theorem fields_congr {get get' : Fields} (h : ∀ key, key ≠ "source" → key ≠ "advanced" → get key = get' key) :
    fields get = fields get' := by
  have haliased : ∀ key read, "#" ++ key ≠ "source" → "#" ++ key ≠ "advanced" → key ≠ "source" → key ≠ "advanced" →
      aliased get key read = aliased get' key read := by
    intro key read halias halias' hkey hkey'
    rw [aliased, aliased, h _ halias halias', field_congr (h key hkey hkey')]
  unfold fields
  rw [field_congr (h "auth_type" (by decide) (by decide)),
    haliased "connection_string" _ (by decide) (by decide) (by decide) (by decide),
    field_congr (h "tenant_id" (by decide) (by decide)), field_congr (h "client_id" (by decide) (by decide)),
    haliased "client_secret" _ (by decide) (by decide) (by decide) (by decide),
    field_congr (h "fully_qualified_namespace" (by decide) (by decide)),
    haliased "row_connection_string" _ (by decide) (by decide) (by decide) (by decide)]

/-- `_validate_auth`. -/
def validateAuth (auth : AuthConfiguration) : Except String Unit :=
  if auth.rowConnectionString ≠ "" then .ok ()
  else match auth.authType with
    | .connectionString =>
      if auth.connectionString = "" then .error "`#connection_string` is required for connection_string auth."
      else .ok ()
    | .servicePrincipal =>
      let missing := ([("tenant_id", auth.tenantId), ("client_id", auth.clientId),
        ("#client_secret", auth.clientSecret),
        ("fully_qualified_namespace", auth.fullyQualifiedNamespace)].filter fun entry => entry.2 = "").map Prod.fst
      if missing = [] then .ok ()
      else .error ("Service principal auth requires: " ++ ", ".intercalate missing ++ ".")

end AuthConfiguration

/-! ### The sections -/

section Sections

variable (convert : Conversions)

/-- The fields of the `source` section. -/
def SourceConfig.validate (get : Fields) : Validated SourceConfig :=
  (fun ((entity, queue), (topic, subscription), (subQueue, sessions), (mode, fetch), idle) =>
    { entityType := entity, queueName := queue, topicName := topic, subscriptionName := subscription,
      subQueue := subQueue, sessionEnabled := sessions, settlementMode := mode, fetchMode := fetch,
      idleTimeoutSeconds := idle.1, idleTimeout_bounds := ⟨idle.2.1, idle.2.2 300 rfl⟩ }) <$>
    ((required get "entity_type" (readEnum EntityType.values)).both
      (field get "queue_name" none (readOptional readString))).both
    (((field get "topic_name" none (readOptional readString)).both
      (field get "subscription_name" none (readOptional readString))).both
    (((field get "sub_queue" .none (readEnum SubQueue.values)).both
      (field get "session_enabled" false (readBool convert))).both
    (((field get "settlement_mode" .complete (readEnum SettlementMode.values)).both
      (field get "fetch_mode" .incrementalFetch (readEnum FetchMode.values))).both
      (field get "idle_timeout_seconds" ⟨10, by simp⟩ (readBounded convert 1 (some 300))))))

/-- The fields of the `limits` section. -/
def LimitsConfig.validate (get : Fields) : Validated LimitsConfig :=
  (fun (messages, jobStart) => { maxMessages := messages.1, stopAtJobStart := jobStart }) <$>
    (field get "max_messages" ⟨0, by simp⟩ (readBounded convert 0 none)).both
      (field get "stop_at_job_start" true (readBool convert))

/-- The fields of the `body` section. -/
def BodyConfig.validate (get : Fields) : Validated BodyConfig :=
  (fun (format, policy) => { bodyFormat := format, unreadableBody := policy }) <$>
    (field get "body_format" .text (readEnum BodyFormat.values)).both
      (field get "unreadable_body" .deadLetter (readEnum UnreadablePolicy.values))

/-- The fields of the `destination` section. -/
def DestinationConfig.validate (get : Fields) : Validated DestinationConfig :=
  (fun (name, load, key) => { tableName := name, loadType := load, primaryKey := key }) <$>
    (field get "table_name" "" readString).both
      ((field get "load_type" .incrementalLoad (readEnum LoadType.values)).both
        (field get "primary_key" .sequenceNumber (readEnum PrimaryKey.values)))

/-- The fields of the `advanced` section. -/
def AdvancedConfig.validate (get : Fields) : Validated AdvancedConfig :=
  (fun ((duration, batch), prefetch, wait) =>
    { maxDurationSeconds := duration.1, batchSize := batch.1, prefetchCount := prefetch.1, recoveryWaitSeconds :=
      wait.1,
      maxDuration_bounds := ⟨duration.2.1, duration.2.2 43200 rfl⟩, batchSize_bounds := ⟨batch.2.1, batch.2.2 5000 rfl⟩,
      prefetchCount_bounds := ⟨prefetch.2.1, prefetch.2.2 1000 rfl⟩, recoveryWait_bounds := wait.2.2 330 rfl }) <$>
    ((field get "max_duration_seconds" ⟨3000, by simp⟩ (readBounded convert 60 (some 43200))).both
      (field get "batch_size" ⟨100, by simp⟩ (readBounded convert 1 (some 5000)))).both
    ((field get "prefetch_count" ⟨1, by simp⟩ (readBounded convert 1 (some 1000))).both
      (field get "recovery_wait_seconds" ⟨0, by simp⟩ (readBounded convert 0 (some 330))))

end Sections

/-- The source has what each of its fields reads. -/
structure SourceConfig.Reads (convert : Conversions) (get : Fields) (source : SourceConfig) : Prop where
  entityType : required get "entity_type" (readEnum EntityType.values) = .ok source.entityType
  queueName : field get "queue_name" none (readOptional readString) = .ok source.queueName
  topicName : field get "topic_name" none (readOptional readString) = .ok source.topicName
  subscriptionName : field get "subscription_name" none (readOptional readString) = .ok source.subscriptionName
  subQueue : field get "sub_queue" .none (readEnum SubQueue.values) = .ok source.subQueue
  sessionEnabled : field get "session_enabled" false (readBool convert) = .ok source.sessionEnabled
  settlementMode : field get "settlement_mode" .complete (readEnum SettlementMode.values) = .ok source.settlementMode
  fetchMode : field get "fetch_mode" .incrementalFetch (readEnum FetchMode.values) = .ok source.fetchMode
  idleTimeout : ∃ idle, field get "idle_timeout_seconds" ⟨10, by simp⟩ (readBounded convert 1 (some 300)) = .ok idle ∧
    idle.1 = source.idleTimeoutSeconds

theorem SourceConfig.validate_ok {convert : Conversions} {get : Fields} {source : SourceConfig} :
    SourceConfig.validate convert get = .ok source ↔ source.Reads convert get := by
  unfold SourceConfig.validate
  simp only [Validated.map_ok, Validated.both_ok, Prod.exists]
  constructor
  · rintro ⟨entity, queue, topic, subscription, subQueue, sessions, mode, fetch, idle,
      ⟨⟨he, hq⟩, ⟨ht, hs⟩, ⟨hsub, hsess⟩, ⟨hm, hf⟩, hi⟩, rfl⟩
    exact ⟨he, hq, ht, hs, hsub, hsess, hm, hf, idle, hi, rfl⟩
  · rintro ⟨he, hq, ht, hs, hsub, hsess, hm, hf, idle, hi, hidle⟩
    refine ⟨_, _, _, _, _, _, _, _, _, ⟨⟨he, hq⟩, ⟨ht, hs⟩, ⟨hsub, hsess⟩, ⟨hm, hf⟩, hi⟩, ?_⟩
    obtain ⟨entity, queue, topic, subscription, subQueue, sessions, mode, fetch, seconds⟩ := source
    dsimp only at hidle ⊢
    subst hidle
    rfl

/-! ### The rules of the whole row -/

/-- What normalising leaves: no name of the other entity type, no fetch mode outside peek mode and no sessions of a
sub-queue. -/
structure SourceConfig.Normal (source : SourceConfig) : Prop where
  queue : source.entityType = .queue →
    source.queueName ≠ none ∧ source.topicName = none ∧ source.subscriptionName = none
  subscription : source.entityType = .subscription →
    source.topicName ≠ none ∧ source.subscriptionName ≠ none ∧ source.queueName = none
  fetchMode : source.settlementMode ≠ .peek → source.fetchMode = .incrementalFetch
  sessions : source.subQueue ≠ .none → source.sessionEnabled = false

/-- A name is missing where it is `None` or empty. -/
def isMissing (name : Option String) : Bool := name.getD "" = ""

/-- The names of `_normalise_source`: those of the entity type are required, the others cleared. -/
def normaliseNames (source : SourceConfig) : Except String SourceConfig :=
  match source.entityType with
  | .queue =>
    if isMissing source.queueName then .error "`source.queue_name` is required when `entity_type` is `queue`."
    else .ok { source with topicName := none, subscriptionName := none }
  | .subscription =>
    if isMissing source.topicName then
      .error "`source.topic_name` is required when `entity_type` is `subscription`."
    else if isMissing source.subscriptionName then
      .error "`source.subscription_name` is required when `entity_type` is `subscription`."
    else .ok { source with queueName := none }

/-- `_normalise_source`. -/
def normaliseSource (source : SourceConfig) : Except String SourceConfig := do
  let named ← normaliseNames source
  let fetched := if named.settlementMode ≠ .peek then { named with fetchMode := .incrementalFetch } else named
  pure (if fetched.subQueue ≠ .none then { fetched with sessionEnabled := false } else fetched)

/-- `_apply_advanced_gate`. -/
def applyAdvancedGate (advancedOptions : Bool) (advanced : AdvancedConfig) : AdvancedConfig :=
  if advancedOptions then advanced else .defaults

/-- `_refuse_unsafe`. -/
def refuseUnsafe (source : SourceConfig) (advanced : AdvancedConfig) : Except String Unit :=
  if source.settlementMode = .receiveAndDelete ∧ advanced.prefetchCount > 1 then
    .error "receive_and_delete requires prefetch_count 1: buffered messages are already deleted on the broker."
  else if source.settlementMode = .peek ∧ source.fetchMode = .incrementalFetch ∧
      (source.sessionEnabled = true ∨ source.subQueue ≠ .none) then
    .error "peek with incremental_fetch is not supported on session entities or sub-queues; use full_fetch."
  else .ok ()

/-- One of the given characters. -/
def oneOf (chars : List Char) : RegularExpression Char := (chars.map .char).sum

/-- The letters and digits of ASCII. -/
def alphanumerics : List Char :=
  "ABCDEFGHIJKLMNOPQRSTUVWXYZabcdefghijklmnopqrstuvwxyz0123456789".toList

/-- `[A-Za-z0-9](?:[A-Za-z0-9_-]*[A-Za-z0-9])?` -/
def tableNameRe : RegularExpression Char :=
  oneOf alphanumerics * (1 + (oneOf (alphanumerics ++ ['_', '-'])).star * oneOf alphanumerics)

/-- `re.match` of the expression between `^` and `$`: without a flag, `$` is the end of the text or a final newline. -/
def matchLine (re : RegularExpression Char) (text : String) : Bool :=
  re.rmatch text.toList || (text.toList.getLast? == some '\n' && re.rmatch text.toList.dropLast)

/-- `_validate_table_name`. -/
def validateTableName (destination : DestinationConfig) : Except String Unit :=
  if destination.tableName ≠ "" ∧ matchLine tableNameRe destination.tableName = false then
    .error ("`destination.table_name` may contain only letters, digits, '-' and '_' " ++
      "and must not start or end with '-' or '_'.")
  else .ok ()

section Rules

variable {source named s : SourceConfig} {advanced : AdvancedConfig}

/-- The names of an accepted source: those of its type are there, the others are not. -/
theorem normaliseNames_ok (h : normaliseNames source = .ok named) :
    (source.entityType = .queue ∧ source.queueName ≠ none ∧
      named = { source with topicName := none, subscriptionName := none }) ∨
    (source.entityType = .subscription ∧ source.topicName ≠ none ∧ source.subscriptionName ≠ none ∧
      named = { source with queueName := none }) := by
  unfold normaliseNames at h
  cases htype : source.entityType with
  | queue =>
    rw [htype] at h
    dsimp only at h
    split at h
    · cases h
    · rename_i hname
      refine .inl ⟨rfl, fun hnone => hname ?_, (Except.ok.inj h).symm⟩
      simp [isMissing, hnone]
  | subscription =>
    rw [htype] at h
    dsimp only at h
    split at h
    · cases h
    · rename_i htopic
      split at h
      · cases h
      · rename_i hsubscription
        refine .inr ⟨rfl, fun hnone => htopic ?_, fun hnone => hsubscription ?_, (Except.ok.inj h).symm⟩
        · simp [isMissing, hnone]
        · simp [isMissing, hnone]

theorem normal_of_normaliseSource (h : normaliseSource source = .ok s) : s.Normal := by
  unfold normaliseSource at h
  cases hnames : normaliseNames source with
  | error text =>
    rw [hnames] at h
    cases h
  | ok named =>
    rw [hnames] at h
    obtain rfl := Except.ok.inj h
    rcases normaliseNames_ok hnames with ⟨htype, hqueue, rfl⟩ | ⟨htype, htopic, hsubscription, rfl⟩
    · constructor <;> dsimp only <;> split <;> split <;> simp_all
    · constructor <;> dsimp only <;> split <;> split <;> simp_all

theorem safe_of_refuseUnsafe (h : refuseUnsafe source advanced = .ok ()) :
    (source.settlementMode = .receiveAndDelete → advanced.prefetchCount = 1) ∧
    (source.settlementMode = .peek → source.fetchMode = .incrementalFetch →
      source.sessionEnabled = false ∧ source.subQueue = .none) := by
  have hbounds := advanced.prefetchCount_bounds
  unfold refuseUnsafe at h
  split at h
  · cases h
  · rename_i hprefetch
    split at h
    · cases h
    · rename_i hpeek
      constructor
      · intro hmode
        have : ¬ advanced.prefetchCount > 1 := fun hmore => hprefetch ⟨hmode, hmore⟩
        omega
      · intro hmode hfetch
        constructor
        · by_contra hsessions
          exact hpeek ⟨hmode, hfetch, .inl (Bool.eq_true_of_not_eq_false hsessions)⟩
        · by_contra hsub
          exact hpeek ⟨hmode, hfetch, .inr hsub⟩

end Rules

/-! ### The whole row -/

/-- What the fields of the parameters say, before any rule. -/
structure Parts where
  auth : AuthConfiguration
  source : SourceConfig
  limits : LimitsConfig
  body : BodyConfig
  destination : DestinationConfig
  advanced : AdvancedConfig
  advancedOptions : Bool

/-- The fields of the parameters. -/
def Parts.validate (convert : Conversions) (get : Fields) : Validated Parts :=
  (fun ((auth, source), (limits, body), (destination, advanced), options) =>
    ⟨auth, source, limits, body, destination, advanced, options⟩) <$>
    ((AuthConfiguration.fields get).both (requiredSection get "source" (SourceConfig.validate convert))).both
    (((sectionOf get "limits" {} (LimitsConfig.validate convert)).both
      (sectionOf get "body" {} BodyConfig.validate)).both
    (((sectionOf get "destination" {} DestinationConfig.validate).both
      (sectionOf get "advanced" .defaults (AdvancedConfig.validate convert))).both
      (field get "advanced_options" false (readBool convert))))

/-- The parts are what the fields read. -/
structure Parts.Reads (convert : Conversions) (get : Fields) (parts : Parts) : Prop where
  auth : AuthConfiguration.fields get = .ok parts.auth
  source : requiredSection get "source" (SourceConfig.validate convert) = .ok parts.source
  limits : sectionOf get "limits" {} (LimitsConfig.validate convert) = .ok parts.limits
  body : sectionOf get "body" {} BodyConfig.validate = .ok parts.body
  destination : sectionOf get "destination" {} DestinationConfig.validate = .ok parts.destination
  advanced : sectionOf get "advanced" .defaults (AdvancedConfig.validate convert) = .ok parts.advanced
  advancedOptions : field get "advanced_options" false (readBool convert) = .ok parts.advancedOptions

theorem Parts.validate_ok {convert : Conversions} {get : Fields} {parts : Parts} :
    Parts.validate convert get = .ok parts ↔ parts.Reads convert get := by
  unfold Parts.validate
  simp only [Validated.map_ok, Validated.both_ok, Prod.exists]
  constructor
  · rintro ⟨auth, source, limits, body, destination, advanced, options, ⟨⟨ha, hs⟩, ⟨hl, hb⟩, ⟨hd, hadv⟩, ho⟩, rfl⟩
    exact ⟨ha, hs, hl, hb, hd, hadv, ho⟩
  · rintro ⟨ha, hs, hl, hb, hd, hadv, ho⟩
    exact ⟨_, _, _, _, _, _, _, ⟨⟨ha, hs⟩, ⟨hl, hb⟩, ⟨hd, hadv⟩, ho⟩, rfl⟩

/-- The rules, one after the other; the first that refuses ends the validation. -/
def Parts.rules (parts : Parts) : Except String (AuthConfiguration × Configuration) :=
  match parts.auth.validateAuth with
  | .error text => .error text
  | .ok () => match hsource : normaliseSource parts.source with
    | .error text => .error text
    | .ok source =>
      let advanced := applyAdvancedGate parts.advancedOptions parts.advanced
      match hsafe : refuseUnsafe source advanced with
      | .error text => .error text
      | .ok () => match validateTableName parts.destination with
        | .error text => .error text
        | .ok () => .ok (parts.auth, {
            source, limits := parts.limits, body := parts.body, destination := parts.destination, advanced
            queue_named := (normal_of_normaliseSource hsource).queue
            subscription_named := (normal_of_normaliseSource hsource).subscription
            fetchMode_normal := (normal_of_normaliseSource hsource).fetchMode
            sessions_normal := (normal_of_normaliseSource hsource).sessions
            prefetch_safe := (safe_of_refuseUnsafe hsafe).1
            peek_safe := (safe_of_refuseUnsafe hsafe).2 })

/-- What the rules make of the parts: nothing is refused, the source is normalised and the advanced section gated. -/
structure Parts.Accepted (parts : Parts) (auth : AuthConfiguration) (config : Configuration) : Prop where
  auth_eq : auth = parts.auth
  auth_valid : parts.auth.validateAuth = .ok ()
  source : normaliseSource parts.source = .ok config.source
  limits : config.limits = parts.limits
  body : config.body = parts.body
  destination : config.destination = parts.destination
  advanced : config.advanced = applyAdvancedGate parts.advancedOptions parts.advanced
  safe : refuseUnsafe config.source config.advanced = .ok ()
  tableName : validateTableName parts.destination = .ok ()

theorem Parts.rules_ok {parts : Parts} {auth : AuthConfiguration} {config : Configuration} :
    parts.rules = .ok (auth, config) ↔ parts.Accepted auth config := by
  constructor
  · intro h
    unfold Parts.rules at h
    split at h
    · cases h
    · rename_i hauth
      split at h
      · cases h
      · rename_i source hsource
        dsimp only at h
        split at h
        · cases h
        · rename_i hsafe
          split at h
          · cases h
          · rename_i htable
            obtain ⟨rfl, rfl⟩ := Prod.mk.inj (Except.ok.inj h)
            exact ⟨rfl, hauth, hsource, rfl, rfl, rfl, rfl, hsafe, htable⟩
  · intro h
    obtain ⟨source, limits, body, destination, advanced⟩ := config
    obtain ⟨rfl, hauth, hsource, hlimits, hbody, hdestination, hadvanced, hsafe, htable⟩ := h
    dsimp only at hsource hlimits hbody hdestination hadvanced hsafe
    subst hlimits hbody hdestination hadvanced
    unfold Parts.rules
    split
    · rename_i hrefused
      rw [hauth] at hrefused
      cases hrefused
    · split
      · rename_i hrefused
        rw [hsource] at hrefused
        cases hrefused
      · rename_i source' hsource'
        obtain rfl : source = source' := Except.ok.inj (hsource.symm.trans hsource')
        dsimp only
        split
        · rename_i hrefused
          rw [hsafe] at hrefused
          cases hrefused
        · split
          · rename_i hrefused
            rw [htable] at hrefused
            cases hrefused
          · rfl

/-- The row that the parameters describe. -/
def Configuration.validate (convert : Conversions) (parameters : List (String × Json String)) :
    Validated (AuthConfiguration × Configuration) := do
  let parts ← Parts.validate convert (fieldsOf parameters)
  Validated.ofRule parts.rules

/-- The row is accepted where every field passes its check and no rule refuses. -/
theorem validate_ok {convert : Conversions} {parameters : List (String × Json String)} {auth : AuthConfiguration}
    {config : Configuration} : Configuration.validate convert parameters = .ok (auth, config) ↔
      ∃ parts : Parts, parts.Reads convert (fieldsOf parameters) ∧ parts.Accepted auth config := by
  rw [Configuration.validate, Validated.bind_ok]
  refine exists_congr fun parts => ?_
  rw [Parts.validate_ok, Validated.ofRule_ok, Parts.rules_ok]

end ServiceBusExtractor
