import ServiceBusExtractor.Parameters

/-!
# The fields the form hides

Some fields do not apply to a row, and the form hides them: the advanced section
while its checkbox is off, the names of the other entity type, the fetch mode
outside peek mode, the sessions of a sub-queue. Their values stay in the
parameters. The rules of the row clear them, but each field has checked its own
value before.

## The model

* `hiddenInSource`, `advancedHidden` — which fields are hidden.
* `AgreeShown p q` — two rows that agree but for hidden fields.
* `shownRow p` — the row without its hidden fields.
* `HiddenValid p` — each hidden field passes its own check.
* `SameOutcome x y` — both are refused, or both accepted as the same row.

## What is proved

* `validate_shown`: a row is accepted as what it is without its hidden fields,
  provided that these pass their checks.
* `same_outcome_iff`: when the hidden fields make no difference.
-/

namespace ServiceBusExtractor

open Pydantic

variable (convert : Conversions)

/-! ### What is hidden -/

/-- The fields without the hidden ones. -/
def hide (hidden : String → Bool) (get : Fields) : Fields := fun key => if hidden key then none else get key

/-- The fields of the source that the form hides, as its other fields have it. -/
def hiddenInSource (get : Fields) (key : String) : Bool :=
  match required get "entity_type" (readEnum EntityType.values), field get "sub_queue" .none (readEnum SubQueue.values),
    field get "settlement_mode" .complete (readEnum SettlementMode.values) with
  | entity, subQueue, mode =>
    (key == "queue_name" && entity.toOption == some .subscription) ||
    ((key == "topic_name" || key == "subscription_name") && entity.toOption == some .queue) ||
    (key == "session_enabled" && subQueue.toOption.any (· != .none)) ||
    (key == "fetch_mode" && mode.toOption.any (· != .peek))

/-- The advanced section is hidden while its checkbox is off. -/
def advancedHidden (get : Fields) : Bool :=
  (field get "advanced_options" false (readBool convert)).toOption == some false

/-- Two sources that agree but for hidden fields. -/
def AgreeSource : Option (Json String) → Option (Json String) → Prop
  | some (.obj fields), some (.obj fields') => ∀ key, hiddenInSource (fieldsOf fields) key = false →
      fieldsOf fields key = fieldsOf fields' key
  | v, v' => v = v'

/-- Two rows that agree but for hidden fields. -/
structure AgreeShown (p q : List (String × Json String)) : Prop where
  other : ∀ key, key ≠ "source" → ¬ (key = "advanced" ∧ advancedHidden convert (fieldsOf p) = true) →
    fieldsOf p key = fieldsOf q key
  source : AgreeSource (fieldsOf p "source") (fieldsOf q "source")

/-- The source without its hidden fields. -/
def shownSource : Json String → Json String
  | .obj fields => .obj (fields.filter fun entry => !hiddenInSource (fieldsOf fields) entry.1)
  | v => v

/-- The row without its hidden fields. -/
def shownRow (p : List (String × Json String)) : List (String × Json String) :=
  (p.filter fun entry => !(entry.1 == "advanced" && advancedHidden convert (fieldsOf p))).map fun entry =>
    (entry.1, if entry.1 = "source" then shownSource entry.2 else entry.2)

/-- Each hidden field of the source passes its own check. -/
structure HiddenSourceValid (get : Fields) : Prop where
  queueName : hiddenInSource get "queue_name" = true → (field get "queue_name" none (readOptional readString)).Passes
  topicName : hiddenInSource get "topic_name" = true → (field get "topic_name" none (readOptional readString)).Passes
  subscriptionName : hiddenInSource get "subscription_name" = true →
    (field get "subscription_name" none (readOptional readString)).Passes
  sessionEnabled : hiddenInSource get "session_enabled" = true →
    (field get "session_enabled" false (readBool convert)).Passes
  fetchMode : hiddenInSource get "fetch_mode" = true →
    (field get "fetch_mode" .incrementalFetch (readEnum FetchMode.values)).Passes

/-- Each hidden field passes its own check. -/
structure HiddenValid (p : List (String × Json String)) : Prop where
  advanced : advancedHidden convert (fieldsOf p) = true →
    (sectionOf (fieldsOf p) "advanced" .defaults (AdvancedConfig.validate convert)).Passes
  source : ∀ fields, fieldsOf p "source" = some (.obj fields) → HiddenSourceValid convert (fieldsOf fields)

/-- Both are refused, or both are accepted as the same. -/
def SameOutcome {α : Type} (x y : Validated α) : Prop := (∃ a, x = .ok a ∧ y = .ok a) ∨ (¬ x.Passes ∧ ¬ y.Passes)

/-! ### Looking up what is shown -/

section Lookup

variable {convert}
variable {p : List (String × Json String)} {key : String}

/-- What is not hidden is looked up as before. -/
theorem fieldsOf_filter (hidden : String → Bool) (fields : List (String × Json String)) :
    fieldsOf (fields.filter fun entry => !hidden entry.1) = hide hidden (fieldsOf fields) := by
  funext key
  unfold hide fieldsOf
  induction fields with
  | nil => simp
  | cons entry rest ih =>
    obtain ⟨name, v⟩ := entry
    by_cases hkey : key = name
    · subst hkey
      cases hhidden : hidden key with
      | true => simpa [List.filter_cons, hhidden] using ih
      | false => simp [hhidden]
    · have hne : (key == name) = false := by simpa using hkey
      cases hhidden : hidden name with
      | true => simpa [List.filter_cons, hhidden, List.lookup_cons, hne] using ih
      | false => simpa [List.filter_cons, hhidden, List.lookup_cons, hne] using ih

theorem fieldsOf_map (change : String → Json String → Json String) (fields : List (String × Json String)) :
    fieldsOf (fields.map fun entry => (entry.1, change entry.1 entry.2)) key = (fieldsOf fields key).map
      (change key) := by
  unfold fieldsOf
  induction fields with
  | nil => rfl
  | cons entry rest ih =>
    obtain ⟨name, v⟩ := entry
    by_cases hkey : key = name
    · subst hkey
      simp
    · have hne : (key == name) = false := by simpa using hkey
      simpa [List.lookup_cons, hne] using ih

theorem fieldsOf_shown : fieldsOf (shownRow convert p) key =
    (hide (fun name => name == "advanced" && advancedHidden convert (fieldsOf p)) (fieldsOf p) key).map
      fun v => if key = "source" then shownSource v else v := by
  rw [shownRow, fieldsOf_map (fun name v => if name = "source" then shownSource v else v),
    fieldsOf_filter fun name => name == "advanced" && advancedHidden convert (fieldsOf p)]

theorem shown_source : fieldsOf (shownRow convert p) "source" = (fieldsOf p "source").map shownSource := by
  rw [fieldsOf_shown]
  simp [hide]

theorem shown_advanced (h : advancedHidden convert (fieldsOf p) = true) :
    fieldsOf (shownRow convert p) "advanced" = none := by
  rw [fieldsOf_shown]
  simp [hide, h]

theorem shown_visible (hsource : key ≠ "source")
    (hadvanced : ¬ (key = "advanced" ∧ advancedHidden convert (fieldsOf p) = true)) :
    fieldsOf (shownRow convert p) key = fieldsOf p key := by
  rw [fieldsOf_shown]
  simp [hide, hsource, hadvanced]

theorem shown_other (hsource : key ≠ "source") (hadvanced : key ≠ "advanced") :
    fieldsOf (shownRow convert p) key = fieldsOf p key :=
  shown_visible hsource fun h => hadvanced h.1

end Lookup

/-! ### The source -/

section Source

variable {convert}
variable {source source' named : SourceConfig} {get : Fields}

/-- Two sources that normalising does not tell apart: they differ in what it clears. -/
structure SameNormal (source source' : SourceConfig) : Prop where
  entityType : source.entityType = source'.entityType
  subQueue : source.subQueue = source'.subQueue
  settlementMode : source.settlementMode = source'.settlementMode
  idleTimeout : source.idleTimeoutSeconds = source'.idleTimeoutSeconds
  queueName : source.entityType ≠ .subscription → source.queueName = source'.queueName
  topicName : source.entityType ≠ .queue → source.topicName = source'.topicName
  subscriptionName : source.entityType ≠ .queue → source.subscriptionName = source'.subscriptionName
  sessionEnabled : source.subQueue = .none → source.sessionEnabled = source'.sessionEnabled
  fetchMode : source.settlementMode = .peek → source.fetchMode = source'.fetchMode

theorem normaliseSource_congr (h : SameNormal source source') : normaliseSource source = normaliseSource source' := by
  obtain ⟨entity, queue, topic, subscription, subQueue, sessions, mode, fetch, seconds⟩ := source
  obtain ⟨entity', queue', topic', subscription', subQueue', sessions', mode', fetch', seconds'⟩ := source'
  obtain ⟨hentity, hsub, hmode, hidle, hqueue, htopic, hsubscription, hsessions, hfetch⟩ := h
  dsimp only at hentity hsub hmode hidle hqueue htopic hsubscription hsessions hfetch
  subst hentity hsub hmode hidle
  cases entity with
  | queue =>
    obtain rfl := hqueue (by decide)
    simp only [normaliseSource, normaliseNames]
    by_cases hname : isMissing queue = true
    · simp [hname]
    · by_cases hpeek : mode = .peek <;> by_cases hnone : subQueue = .none <;> simp_all
  | subscription =>
    obtain rfl := htopic (by decide)
    obtain rfl := hsubscription (by decide)
    simp only [normaliseSource, normaliseNames]
    by_cases hname : isMissing topic = true
    · simp [hname]
    · by_cases hname' : isMissing subscription = true
      · simp [hname, hname']
      · by_cases hpeek : mode = .peek <;> by_cases hnone : subQueue = .none <;> simp_all

/-- What is hidden, once the three fields it depends on are read. -/
structure HidesAs (get : Fields) (source : SourceConfig) : Prop where
  entityType : required get "entity_type" (readEnum EntityType.values) = .ok source.entityType
  subQueue : field get "sub_queue" .none (readEnum SubQueue.values) = .ok source.subQueue
  settlementMode : field get "settlement_mode" .complete (readEnum SettlementMode.values) = .ok source.settlementMode

theorem SourceConfig.Reads.hidesAs (h : source.Reads convert get) : HidesAs get source :=
  ⟨h.entityType, h.subQueue, h.settlementMode⟩

namespace HidesAs

theorem queueName (h : HidesAs get source) :
    hiddenInSource get "queue_name" = true ↔ source.entityType = .subscription := by
  simp [hiddenInSource, h.entityType, h.subQueue, h.settlementMode, Except.toOption]

theorem topicName (h : HidesAs get source) : hiddenInSource get "topic_name" = true ↔ source.entityType = .queue := by
  simp [hiddenInSource, h.entityType, h.subQueue, h.settlementMode, Except.toOption]

theorem subscriptionName (h : HidesAs get source) :
    hiddenInSource get "subscription_name" = true ↔ source.entityType = .queue := by
  simp [hiddenInSource, h.entityType, h.subQueue, h.settlementMode, Except.toOption]

theorem sessionEnabled (h : HidesAs get source) :
    hiddenInSource get "session_enabled" = true ↔ source.subQueue ≠ .none := by
  simp [hiddenInSource, h.entityType, h.subQueue, h.settlementMode, Except.toOption]

theorem fetchMode (h : HidesAs get source) :
    hiddenInSource get "fetch_mode" = true ↔ source.settlementMode ≠ .peek := by
  simp [hiddenInSource, h.entityType, h.subQueue, h.settlementMode, Except.toOption]

end HidesAs

/-- The other fields are never hidden. -/
theorem not_hidden {key : String}
    (h : key ∉ ["queue_name", "topic_name", "subscription_name", "session_enabled", "fetch_mode"]) :
    hiddenInSource get key = false := by
  simp only [List.mem_cons, List.not_mem_nil, or_false, not_or] at h
  simp [hiddenInSource, h]

section Hide

variable {α : Type} {hidden : String → Bool} {key : String} {default : α} {read : Read α}

theorem field_hide (h : hidden key = true) : field (hide hidden get) key default read = .ok default :=
  field_absent (by simp [hide, h])

theorem field_not_hide (h : hidden key = false) :
    field (hide hidden get) key default read = field get key default read :=
  field_congr (by simp [hide, h])

theorem required_not_hide (h : hidden key = false) : required (hide hidden get) key read = required get key read :=
  required_congr (by simp [hide, h])

/-- A hidden field has its default, another one what it has. -/
theorem field_hide_ok {a : α} (h : field get key default read = .ok a) :
    field (hide hidden get) key default read = .ok (if hidden key then default else a) := by
  cases hkey : hidden key with
  | true => simp [field_hide hkey]
  | false => simp [field_not_hide hkey, h]

/-- A field that is hidden passes with a value of its own, another one with the value that is shown. -/
theorem field_of_hide {a : α} (hvalid : hidden key = true → (field get key default read).Passes)
    (h : field (hide hidden get) key default read = .ok a) :
    ∃ b, field get key default read = .ok b ∧ (hidden key = false → b = a) := by
  cases hkey : hidden key with
  | true =>
    obtain ⟨b, hb⟩ := hvalid hkey
    exact ⟨b, hb, by simp⟩
  | false => exact ⟨a, by rwa [field_not_hide hkey] at h, fun _ => rfl⟩

end Hide

/-- A source is normalised to what it is without its hidden fields, provided that these pass their checks. -/
theorem source_hide : (∃ source, source.Reads convert get ∧ normaliseSource source = .ok named) ↔
    HiddenSourceValid convert get ∧
      ∃ source, source.Reads convert (hide (hiddenInSource get) get) ∧ normaliseSource source = .ok named := by
  constructor
  · rintro ⟨source, hreads, hnamed⟩
    have hh := hreads.hidesAs
    refine ⟨⟨fun _ => ⟨_, hreads.queueName⟩, fun _ => ⟨_, hreads.topicName⟩, fun _ => ⟨_, hreads.subscriptionName⟩,
      fun _ => ⟨_, hreads.sessionEnabled⟩, fun _ => ⟨_, hreads.fetchMode⟩⟩, ?_⟩
    obtain ⟨idle, hidle, hseconds⟩ := hreads.idleTimeout
    refine ⟨{ source with
      queueName := if hiddenInSource get "queue_name" then none else source.queueName
      topicName := if hiddenInSource get "topic_name" then none else source.topicName
      subscriptionName := if hiddenInSource get "subscription_name" then none else source.subscriptionName
      sessionEnabled := if hiddenInSource get "session_enabled" then false else source.sessionEnabled
      fetchMode := if hiddenInSource get "fetch_mode" then .incrementalFetch else source.fetchMode }, ?_, ?_⟩
    · constructor
      · exact (required_not_hide (not_hidden (by decide))).trans hreads.entityType
      · exact field_hide_ok hreads.queueName
      · exact field_hide_ok hreads.topicName
      · exact field_hide_ok hreads.subscriptionName
      · exact (field_not_hide (not_hidden (by decide))).trans hreads.subQueue
      · exact field_hide_ok hreads.sessionEnabled
      · exact (field_not_hide (not_hidden (by decide))).trans hreads.settlementMode
      · exact field_hide_ok hreads.fetchMode
      · exact ⟨idle, (field_not_hide (not_hidden (by decide))).trans hidle, hseconds⟩
    · rw [← hnamed]
      symm
      refine normaliseSource_congr ⟨rfl, rfl, rfl, rfl, fun h => ?_, fun h => ?_, fun h => ?_, fun h => ?_, fun h => ?_⟩
      · simp [hh.queueName, h]
      · simp [hh.topicName, h]
      · simp [hh.subscriptionName, h]
      · simp [hh.sessionEnabled, h]
      · simp [hh.fetchMode, h]
  · rintro ⟨hvalid, source, hreads, hnamed⟩
    have hentity := (required_not_hide (not_hidden (by decide))).symm.trans hreads.entityType
    have hsub := (field_not_hide (not_hidden (by decide))).symm.trans hreads.subQueue
    have hmode := (field_not_hide (not_hidden (by decide))).symm.trans hreads.settlementMode
    have hh : HidesAs get source := ⟨hentity, hsub, hmode⟩
    obtain ⟨queue, hqueue, hqueue'⟩ := field_of_hide hvalid.queueName hreads.queueName
    obtain ⟨topic, htopic, htopic'⟩ := field_of_hide hvalid.topicName hreads.topicName
    obtain ⟨subscription, hsubscription, hsubscription'⟩ :=
      field_of_hide hvalid.subscriptionName hreads.subscriptionName
    obtain ⟨sessions, hsessions, hsessions'⟩ := field_of_hide hvalid.sessionEnabled hreads.sessionEnabled
    obtain ⟨fetch, hfetch, hfetch'⟩ := field_of_hide hvalid.fetchMode hreads.fetchMode
    obtain ⟨idle, hidle, hseconds⟩ := hreads.idleTimeout
    refine ⟨{ source with
      queueName := queue, topicName := topic, subscriptionName := subscription, sessionEnabled := sessions,
      fetchMode := fetch }, ⟨hentity, hqueue, htopic, hsubscription, hsub, hsessions, hmode, hfetch, idle,
        (field_not_hide (not_hidden (by decide))).symm.trans hidle, hseconds⟩, ?_⟩
    rw [← hnamed]
    refine normaliseSource_congr ⟨rfl, rfl, rfl, rfl, fun h => ?_, fun h => ?_, fun h => ?_, fun h => ?_, fun h => ?_⟩
    · exact hqueue' (by simpa [Bool.eq_false_iff, hh.queueName] using h)
    · exact htopic' (by simpa [Bool.eq_false_iff, hh.topicName] using h)
    · exact hsubscription' (by simpa [Bool.eq_false_iff, hh.subscriptionName] using h)
    · exact hsessions' (by simpa [Bool.eq_false_iff, hh.sessionEnabled] using h)
    · exact hfetch' (by simpa [Bool.eq_false_iff, hh.fetchMode] using h)

end Source

/-! ### The whole row -/

section Row

variable {convert}
variable {p q : List (String × Json String)} {auth : AuthConfiguration} {config : Configuration}

theorem shownSource_eq_obj {v : Json String} {fields : List (String × Json String)} (h : shownSource v = .obj fields) :
    ∃ original, v = .obj original ∧
      fields = original.filter fun entry => !hiddenInSource (fieldsOf original) entry.1 := by
  cases v with
  | obj original => exact ⟨original, rfl, (Json.obj.inj h).symm⟩
  | _ => cases h

theorem advancedHidden_eq {options : Bool}
    (h : field (fieldsOf p) "advanced_options" false (readBool convert) = .ok options) :
    advancedHidden convert (fieldsOf p) = !options := by
  rw [advancedHidden, h]
  cases options <;> rfl

theorem auth_shown : AuthConfiguration.fields (fieldsOf (shownRow convert p)) = AuthConfiguration.fields (fieldsOf p) :=
  AuthConfiguration.fields_congr fun _ hsource hadvanced => shown_other hsource hadvanced

/-- A row is accepted as what it is without its hidden fields, provided that these pass their own checks. -/
theorem validate_shown : Configuration.validate convert p = .ok (auth, config) ↔
    HiddenValid convert p ∧ Configuration.validate convert (shownRow convert p) = .ok (auth, config) := by
  rw [validate_ok, validate_ok]
  constructor
  · rintro ⟨parts, hreads, haccepted⟩
    obtain ⟨fields, hsource, hfields⟩ := requiredSection_ok.mp hreads.source
    obtain ⟨hvalid, source, hshown, hnormal⟩ :=
      source_hide.mp ⟨_, SourceConfig.validate_ok.mp hfields, haccepted.source⟩
    have hoptions := advancedHidden_eq hreads.advancedOptions
    refine ⟨⟨fun _ => ⟨_, hreads.advanced⟩, fun fields' hfields' => ?_⟩, ?_⟩
    · obtain rfl := Json.obj.inj (Option.some.inj (hsource.symm.trans hfields'))
      exact hvalid
    · refine ⟨{ parts with source := source, advanced := if parts.advancedOptions then parts.advanced else {} },
        ⟨auth_shown.trans hreads.auth, requiredSection_ok.mpr ⟨_, by rw [shown_source, hsource]; rfl, ?_⟩,
          (sectionOf_congr (shown_other (by decide) (by decide))).trans hreads.limits,
          (sectionOf_congr (shown_other (by decide) (by decide))).trans hreads.body,
          (sectionOf_congr (shown_other (by decide) (by decide))).trans hreads.destination, ?_,
          (field_congr (shown_other (by decide) (by decide))).trans hreads.advancedOptions⟩,
        ⟨haccepted.auth_eq, haccepted.auth_valid, hnormal, haccepted.limits, haccepted.body, haccepted.destination, ?_,
          haccepted.safe, haccepted.tableName⟩⟩
      · rw [fieldsOf_filter]
        exact SourceConfig.validate_ok.mpr hshown
      · cases hon : parts.advancedOptions with
        | true =>
          rw [hon] at hoptions
          refine (sectionOf_congr (shown_visible (by decide) ?_)).trans hreads.advanced
          rw [hoptions]
          simp
        | false =>
          rw [hon] at hoptions
          exact sectionOf_absent (shown_advanced hoptions)
      · rw [haccepted.advanced]
        cases parts.advancedOptions <;> rfl
  · rintro ⟨hvalid, parts, hreads, haccepted⟩
    obtain ⟨fields', hsource, hfields⟩ := requiredSection_ok.mp hreads.source
    rw [shown_source, Option.map_eq_some_iff] at hsource
    obtain ⟨v, hsource, hv⟩ := hsource
    obtain ⟨fields, rfl, rfl⟩ := shownSource_eq_obj hv
    rw [fieldsOf_filter] at hfields
    obtain ⟨source, hsourceReads, hnormal⟩ := source_hide.mpr
      ⟨hvalid.source fields hsource, _, SourceConfig.validate_ok.mp hfields, haccepted.source⟩
    have hoptionsField : field (fieldsOf p) "advanced_options" false (readBool convert) =
        .ok parts.advancedOptions :=
      (field_congr (shown_other (by decide) (by decide))).symm.trans hreads.advancedOptions
    have hoptions := advancedHidden_eq hoptionsField
    obtain ⟨advanced, hadvanced, hsame⟩ : ∃ advanced,
        sectionOf (fieldsOf p) "advanced" .defaults (AdvancedConfig.validate convert) = .ok advanced ∧
          applyAdvancedGate parts.advancedOptions advanced = applyAdvancedGate parts.advancedOptions
            parts.advanced := by
      cases hon : parts.advancedOptions with
      | true =>
        rw [hon] at hoptions
        refine ⟨_, (sectionOf_congr (shown_visible (by decide) ?_)).symm.trans hreads.advanced, rfl⟩
        rw [hoptions]
        simp
      | false =>
        rw [hon] at hoptions
        obtain ⟨advanced, hadvanced⟩ := hvalid.advanced hoptions
        exact ⟨advanced, hadvanced, rfl⟩
    refine ⟨{ parts with source := source, advanced := advanced },
      ⟨auth_shown.symm.trans hreads.auth,
        requiredSection_ok.mpr ⟨fields, hsource, SourceConfig.validate_ok.mpr hsourceReads⟩,
        (sectionOf_congr (shown_other (by decide) (by decide))).symm.trans hreads.limits,
        (sectionOf_congr (shown_other (by decide) (by decide))).symm.trans hreads.body,
        (sectionOf_congr (shown_other (by decide) (by decide))).symm.trans hreads.destination, hadvanced,
          hoptionsField⟩,
      ⟨haccepted.auth_eq, haccepted.auth_valid, hnormal, haccepted.limits, haccepted.body, haccepted.destination, ?_,
        haccepted.safe, haccepted.tableName⟩⟩
    rw [haccepted.advanced]
    exact hsame.symm

/-- Sources that agree but for hidden fields are shown as the same fields. -/
theorem AgreeSource.shown {v v' : Option (Json String)} (h : AgreeSource v v') {α : Type}
    (validate : Fields → Validated α) :
    requiredSection (fun _ => v.map shownSource) "source" validate =
      requiredSection (fun _ => v'.map shownSource) "source" validate := by
  unfold AgreeSource at h
  split at h
  · rename_i fields fields'
    have hhidden : hiddenInSource (fieldsOf fields) = hiddenInSource fun name => fieldsOf fields' name := by
      have hentity := h "entity_type" (not_hidden (by decide))
      have hsub := h "sub_queue" (not_hidden (by decide))
      have hmode := h "settlement_mode" (not_hidden (by decide))
      funext key
      rw [hiddenInSource, hiddenInSource, required_congr hentity, field_congr hsub, field_congr hmode]
    have hsame : hide (hiddenInSource (fieldsOf fields)) (fieldsOf fields) =
        hide (hiddenInSource fun name => fieldsOf fields' name) fun name => fieldsOf fields' name := by
      rw [← hhidden]
      funext key
      cases hkey : hiddenInSource (fieldsOf fields) key with
      | true => simp [hide, hkey]
      | false => simp [hide, hkey, h key hkey]
    simp only [requiredSection, submodel, shownSource, Option.map_some, fieldsOf_filter, hsame]
  · rw [h]

/-- Rows that agree but for hidden fields are shown as the same row. -/
theorem AgreeShown.shown (h : AgreeShown convert p q) :
    Configuration.validate convert (shownRow convert p) = Configuration.validate convert (shownRow convert q) := by
  have hsame : ∀ key, key ≠ "source" → key ≠ "advanced" → fieldsOf p key = fieldsOf q key :=
    fun key hsource hadvanced => h.other key hsource fun hhidden => hadvanced hhidden.1
  have hoptions : advancedHidden convert (fieldsOf p) = advancedHidden convert (fieldsOf q) := by
    rw [advancedHidden, advancedHidden, field_congr (hsame "advanced_options" (by decide) (by decide))]
  have hother : ∀ key, key ≠ "source" → fieldsOf (shownRow convert p) key =
      fieldsOf (shownRow convert q) key := by
    intro key hsource
    by_cases hhidden : key = "advanced" ∧ advancedHidden convert (fieldsOf p) = true
    · obtain ⟨rfl, hp⟩ := hhidden
      rw [shown_advanced hp, shown_advanced (hoptions ▸ hp)]
    · rw [shown_visible hsource hhidden, shown_visible hsource (hoptions ▸ hhidden), h.other key hsource hhidden]
  have hsource : requiredSection (fieldsOf (shownRow convert p)) "source"
      (SourceConfig.validate convert) = requiredSection (fieldsOf (shownRow convert q))
        "source" (SourceConfig.validate convert) := by
    have hshown := h.source.shown (SourceConfig.validate convert)
    rw [← shown_source, ← shown_source] at hshown
    exact hshown
  rw [Configuration.validate, Configuration.validate, Parts.validate, Parts.validate, hsource,
    AuthConfiguration.fields_congr fun key hne _ => hother key hne, sectionOf_congr (hother "limits" (by decide)),
    sectionOf_congr (hother "body" (by decide)), sectionOf_congr (hother "destination" (by decide)),
    sectionOf_congr (hother "advanced" (by decide)), field_congr (hother "advanced_options" (by decide))]

/-- Hidden fields make no difference exactly where they pass their own checks in both rows or in none, or the row is
refused without them as well. -/
theorem same_outcome_iff (h : AgreeShown convert p q) :
    SameOutcome (Configuration.validate convert p) (Configuration.validate convert q) ↔
      (HiddenValid convert p ↔ HiddenValid convert q) ∨
        ¬ (Configuration.validate convert (shownRow convert p)).Passes := by
  have hpasses : ∀ p, (Configuration.validate convert p).Passes ↔
      HiddenValid convert p ∧ (Configuration.validate convert (shownRow convert p)).Passes := by
    intro p
    constructor
    · rintro ⟨⟨auth, config⟩, hok⟩
      obtain ⟨hvalid, hshown⟩ := validate_shown.mp hok
      exact ⟨hvalid, _, hshown⟩
    · rintro ⟨hvalid, ⟨auth, config⟩, hok⟩
      exact ⟨_, validate_shown.mpr ⟨hvalid, hok⟩⟩
  have hp := hpasses p
  have hq := hpasses q
  rw [← h.shown] at hq
  constructor
  · rintro (⟨row, hokp, hokq⟩ | ⟨hnotp, hnotq⟩)
    · exact .inl (iff_of_true (hp.mp ⟨row, hokp⟩).1 (hq.mp ⟨row, hokq⟩).1)
    · tauto
  · intro hcond
    by_cases hpass : (Configuration.validate convert (shownRow convert p)).Passes
    · have hiff := hcond.resolve_right fun hnot => hnot hpass
      by_cases hvalid : HiddenValid convert p
      · obtain ⟨⟨auth, config⟩, hok⟩ := hpass
        have hokq := hok
        rw [h.shown] at hokq
        exact .inl ⟨_, validate_shown.mpr ⟨hvalid, hok⟩, validate_shown.mpr ⟨hiff.mp hvalid, hokq⟩⟩
      · exact .inr ⟨fun hpassp => hvalid (hp.mp hpassp).1, fun hpassq => hvalid (hiff.mpr (hq.mp hpassq).1)⟩
    · exact .inr ⟨fun hpassp => hpass (hp.mp hpassp).2, fun hpassq => hpass (hq.mp hpassq).2⟩

end Row

/-- A row with the advanced options off and a batch size left in the hidden section. -/
def hiddenBatchSize (size : ℤ) : List (String × Json String) :=
  [("#connection_string", .str "Endpoint=sb://shop"),
    ("source", .obj [("entity_type", .str "queue"), ("queue_name", .str "orders")]),
    ("advanced", .obj [("batch_size", .int size)])]

/-- The batch size is hidden. -/
theorem agreeShown_hiddenBatchSize (size size' : ℤ) :
    AgreeShown .strict (hiddenBatchSize size) (hiddenBatchSize size') := by
  constructor
  · intro key hsource hvisible
    have hhidden : advancedHidden .strict (fieldsOf (hiddenBatchSize size)) = true := rfl
    have hadvanced : (key == "advanced") = false := by
      rw [beq_eq_false_iff_ne]
      exact fun hkey => hvisible ⟨hkey, hhidden⟩
    simp [fieldsOf, hiddenBatchSize, List.lookup_cons, hadvanced]
  · intro key _
    rfl

theorem hiddenSourceValid_orders (size : ℤ) : HiddenValid .strict (hiddenBatchSize size) ↔
    (sectionOf (fieldsOf (hiddenBatchSize size)) "advanced" .defaults (AdvancedConfig.validate .strict)).Passes := by
  refine ⟨fun h => h.advanced rfl, fun h => ⟨fun _ => h, fun fields hfields => ?_⟩⟩
  obtain rfl : [("entity_type", Json.str "queue"), ("queue_name", .str "orders")] = fields :=
    Json.obj.inj (Option.some.inj hfields)
  constructor <;> intro _ <;> exact Validated.passes_iff_isSome.mpr (by decide +kernel)

/-- Two batch sizes within the bounds make no difference. -/
theorem same_outcome_iff_seven : SameOutcome (Configuration.validate .strict (hiddenBatchSize 7))
    (Configuration.validate .strict (hiddenBatchSize 100)) := by
  refine (same_outcome_iff (agreeShown_hiddenBatchSize 7 100)).mpr (.inl (iff_of_true ?_ ?_))
  · exact (hiddenSourceValid_orders 7).mpr (Validated.passes_iff_isSome.mpr (by decide +kernel))
  · exact (hiddenSourceValid_orders 100).mpr (Validated.passes_iff_isSome.mpr (by decide +kernel))

/-- A hidden batch size of 0 has the row refused, one of 100 does not. -/
theorem hidden_batch_size_refused : AgreeShown .strict (hiddenBatchSize 0) (hiddenBatchSize 100) ∧
    ¬ SameOutcome (Configuration.validate .strict (hiddenBatchSize 0))
      (Configuration.validate .strict (hiddenBatchSize 100)) := by
  have hzero : ¬ (Configuration.validate .strict (hiddenBatchSize 0)).Passes :=
    fun h => absurd (Validated.passes_iff_isSome.mp h) (by decide +kernel)
  have hhundred : (Configuration.validate .strict (hiddenBatchSize 100)).Passes :=
    Validated.passes_iff_isSome.mpr (by decide +kernel)
  refine ⟨agreeShown_hiddenBatchSize 0 100, ?_⟩
  rintro (⟨row, hok, -⟩ | ⟨-, hnot⟩)
  · exact hzero ⟨row, hok⟩
  · exact hnot hhundred

end ServiceBusExtractor
