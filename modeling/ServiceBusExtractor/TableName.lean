import ServiceBusExtractor.Parameters
import ServiceBusExtractor.Script

/-!
# The name of the output table

An explicit name passes a regular expression, a derived one is joined from the
names of the entity, sanitised and trimmed. Both should land in one grammar.

## The model

* `IsTableName text` — letters, digits, `-` and `_`, a letter or digit first and last.
* `EndsInNewline text` — the last character is a line feed.

## What is proved

* `matchLine_tableNameRe`: the texts that the check of an explicit name accepts.
* `isTableName_defaultTableName`: a derived name is always in the grammar.
* `isTableName_iff`: the name of an accepted row is in the grammar exactly where
  the explicit name does not end in a newline.
-/

namespace ServiceBusExtractor

open Pydantic

/-- A text of letters, digits, `-` and `_` that begins and ends with a letter or a digit. -/
structure IsTableName (text : List Char) : Prop where
  nonempty : text ≠ []
  chars : ∀ c ∈ text, EntityRef.tableNameChar c = true
  first : ∀ c ∈ text.head?, c.isAlphanum = true
  last : ∀ c ∈ text.getLast?, c.isAlphanum = true

/-! ### The expression of an explicit name -/

section Expression

variable {chars text : List Char} {c : Char}

theorem mem_oneOf : text ∈ (oneOf chars).matches' ↔ ∃ c ∈ chars, text = [c] := by
  induction chars with
  | nil =>
    constructor
    · intro h
      exact absurd h (Language.notMem_zero text)
    · rintro ⟨c, hc, -⟩
      cases hc
  | cons first rest ih =>
    have hsum : oneOf (first :: rest) = .char first + oneOf rest := rfl
    rw [hsum, RegularExpression.matches'_add, Language.mem_add, RegularExpression.matches'_char, ih]
    constructor
    · rintro (h | ⟨c, hc, rfl⟩)
      · exact ⟨first, by simp, h⟩
      · exact ⟨c, by simp [hc], rfl⟩
    · rintro ⟨c, hc, rfl⟩
      rcases List.mem_cons.mp hc with rfl | hc
      · exact .inl rfl
      · exact .inr ⟨c, hc, rfl⟩

theorem mem_star_oneOf : text ∈ (oneOf chars).star.matches' ↔ ∀ c ∈ text, c ∈ chars := by
  rw [RegularExpression.matches'_star, Language.mem_kstar]
  constructor
  · rintro ⟨parts, rfl, hparts⟩ c hc
    obtain ⟨part, hpart, hmem⟩ := List.mem_flatten.mp hc
    obtain ⟨d, hd, rfl⟩ := mem_oneOf.mp (hparts part hpart)
    obtain rfl := List.mem_singleton.mp hmem
    exact hd
  · intro h
    refine ⟨text.map fun c => [c], ?_, fun part hpart => ?_⟩
    · rw [← List.flatMap_def, List.flatMap_singleton']
    · obtain ⟨c, hc, rfl⟩ := List.mem_map.mp hpart
      exact mem_oneOf.mpr ⟨c, h c hc, rfl⟩

/-- The letters and digits are the alphanumeric characters. -/
theorem mem_alphanumerics : c ∈ alphanumerics ↔ c.isAlphanum = true := by
  constructor
  · have hall : alphanumerics.all Char.isAlphanum = true := by decide
    exact List.all_eq_true.mp hall c
  · intro h
    have hsmall : c.toNat < 128 := by
      simp only [Char.isAlphanum, Char.isAlpha, Char.isUpper, Char.isLower, Char.isDigit, Bool.or_eq_true,
        Bool.and_eq_true, decide_eq_true_eq] at h
      have hval : ∀ d : Char, c ≤ d → c.toNat ≤ d.toNat := fun d hd => hd
      rcases h with (⟨-, h⟩ | ⟨-, h⟩) | ⟨-, h⟩
      · exact lt_of_le_of_lt h (by decide)
      · exact lt_of_le_of_lt h (by decide)
      · exact lt_of_le_of_lt h (by decide)
    have hall : ∀ n < 128, (Char.ofNat n).isAlphanum = true → Char.ofNat n ∈ alphanumerics := by
      decide +kernel
    have hc := hall c.toNat hsmall
    rw [Char.ofNat_toNat] at hc
    exact hc h

theorem mem_tableNameChars : c ∈ alphanumerics ++ ['_', '-'] ↔ EntityRef.tableNameChar c = true := by
  rw [List.mem_append, mem_alphanumerics]
  simp [EntityRef.tableNameChar, or_assoc]

/-- The expression is the grammar. -/
theorem mem_tableNameRe : text ∈ tableNameRe.matches' ↔ IsTableName text := by
  have halnum : ∀ c : Char, c.isAlphanum = true → EntityRef.tableNameChar c = true := by
    intro c hc
    simp [EntityRef.tableNameChar, hc]
  unfold tableNameRe
  rw [RegularExpression.matches'_mul, Language.mem_mul]
  constructor
  · rintro ⟨_, hfirst, rest, hrest, rfl⟩
    obtain ⟨c, hc, rfl⟩ := mem_oneOf.mp hfirst
    rw [mem_alphanumerics] at hc
    rw [RegularExpression.matches'_add, Language.mem_add, RegularExpression.matches'_epsilon, Language.mem_one,
      RegularExpression.matches'_mul, Language.mem_mul] at hrest
    rcases hrest with rfl | ⟨middle, hmiddle, _, hlast, rfl⟩
    · exact ⟨by simp, by simpa using halnum c hc, by simpa using hc, by simpa using hc⟩
    · obtain ⟨d, hd, rfl⟩ := mem_oneOf.mp hlast
      rw [mem_alphanumerics] at hd
      rw [mem_star_oneOf] at hmiddle
      refine ⟨by simp, fun e he => ?_, by simpa using hc, ?_⟩
      · simp only [List.singleton_append, List.mem_cons, List.mem_append, List.not_mem_nil, or_false] at he
        obtain rfl | he | rfl := he
        · exact halnum e hc
        · exact mem_tableNameChars.mp (hmiddle e he)
        · exact halnum e hd
      · rw [← List.append_assoc, List.getLast?_concat]
        simpa using hd
  · rintro ⟨hne, hchars, hfirst, hlast⟩
    obtain ⟨c, rest, rfl⟩ := List.exists_cons_of_ne_nil hne
    refine ⟨[c], mem_oneOf.mpr ⟨c, mem_alphanumerics.mpr (hfirst c rfl), rfl⟩, rest, ?_, rfl⟩
    rw [RegularExpression.matches'_add, Language.mem_add, RegularExpression.matches'_epsilon, Language.mem_one,
      RegularExpression.matches'_mul, Language.mem_mul]
    rcases List.eq_nil_or_concat rest with rfl | ⟨middle, d, rfl⟩
    · exact .inl rfl
    · refine .inr ⟨middle, mem_star_oneOf.mpr fun e he => ?_, [d], ?_, List.concat_eq_append.symm⟩
      · exact mem_tableNameChars.mpr (hchars e (by simp [he]))
      · refine mem_oneOf.mpr ⟨d, mem_alphanumerics.mpr (hlast d ?_), rfl⟩
        rw [List.concat_eq_append, ← List.cons_append, List.getLast?_concat]
        rfl

/-- The texts that the check of an explicit name accepts: those of the grammar, and those with a newline after one. -/
theorem matchLine_tableNameRe {name : String} : matchLine tableNameRe name = true ↔
    IsTableName name.toList ∨ ∃ body, name.toList = body ++ ['\n'] ∧ IsTableName body := by
  rw [matchLine, Bool.or_eq_true, Bool.and_eq_true, RegularExpression.rmatch_iff_matches',
    RegularExpression.rmatch_iff_matches', mem_tableNameRe, mem_tableNameRe, beq_iff_eq]
  refine or_congr Iff.rfl ⟨fun ⟨hlast, hbody⟩ => ?_, ?_⟩
  · exact ⟨_, (List.dropLast_append_getLast? _ hlast).symm, hbody⟩
  · rintro ⟨body, heq, hbody⟩
    rw [heq, List.getLast?_concat, List.dropLast_concat]
    exact ⟨rfl, hbody⟩

end Expression

/-! ### The derived name -/

section Derived

/-- What `strip` takes off a derived name. -/
def isFiller (c : Char) : Bool := c == '_' || c == '-'

/-- What is left of a sanitised name once it is trimmed. -/
theorem isTableName_trimmed {sanitised : List Char} (h : ∀ c ∈ sanitised, EntityRef.tableNameChar c = true)
    (hne : ((sanitised.dropWhile isFiller).reverse.dropWhile isFiller).reverse ≠ []) :
    IsTableName ((sanitised.dropWhile isFiller).reverse.dropWhile isFiller).reverse := by
  have hedge : ∀ c, EntityRef.tableNameChar c = true → isFiller c = false → c.isAlphanum = true := by
    intro c hc hfiller
    simp only [EntityRef.tableNameChar, isFiller, Bool.or_eq_true, Bool.or_eq_false_iff, beq_iff_eq,
      beq_eq_false_iff_ne] at hc hfiller
    tauto
  have hchars : ∀ c ∈ ((sanitised.dropWhile isFiller).reverse.dropWhile isFiller).reverse,
      EntityRef.tableNameChar c = true := by
    intro c hc
    have hmem := List.mem_reverse.mp ((List.dropWhile_sublist _).subset (List.mem_reverse.mp hc))
    exact h c ((List.dropWhile_sublist _).subset hmem)
  refine ⟨hne, hchars, fun c hc => ?_, fun c hc => ?_⟩
  · -- dropping at the end leaves the first character, which dropping at the front stopped at
    have hprefix : ((sanitised.dropWhile isFiller).reverse.dropWhile isFiller).reverse <+: sanitised.dropWhile
        isFiller := by
      have := List.reverse_prefix.mpr (List.dropWhile_suffix isFiller (l := (sanitised.dropWhile isFiller).reverse))
      rwa [List.reverse_reverse] at this
    have hhead : (sanitised.dropWhile isFiller).head? = some c := by
      obtain ⟨rest, hrest⟩ := hprefix
      rw [← hrest, List.head?_append_of_ne_nil _ hne]
      exact hc
    have hkept := List.head?_dropWhile_not isFiller sanitised
    rw [hhead] at hkept
    exact hedge c (hchars c (List.mem_of_head? hc)) (by simpa using hkept)
  · rw [List.getLast?_reverse] at hc
    have hkept := List.head?_dropWhile_not isFiller (sanitised.dropWhile isFiller).reverse
    rw [hc] at hkept
    exact hedge c (hchars c (List.mem_reverse.mpr (List.mem_of_head? hc))) (by simpa using hkept)

/-- A derived name is in the grammar, whatever the names of the entity are. -/
theorem isTableName_defaultTableName (entity : EntityRef) : IsTableName entity.defaultTableName.toList := by
  have hname : ∀ sanitised : List Char, (∀ c ∈ sanitised, EntityRef.tableNameChar c = true) →
      IsTableName (if ((sanitised.dropWhile isFiller).reverse.dropWhile isFiller).reverse = [] then "messages"
        else String.ofList ((sanitised.dropWhile isFiller).reverse.dropWhile isFiller).reverse).toList := by
    intro sanitised hsanitised
    by_cases hne : ((sanitised.dropWhile isFiller).reverse.dropWhile isFiller).reverse = []
    · rw [if_pos hne]
      have hall : "messages".toList.all EntityRef.tableNameChar = true := by decide
      refine ⟨by decide, List.all_eq_true.mp hall, fun c hc => ?_, fun c hc => ?_⟩
      · obtain rfl : 'm' = c := Option.some.inj hc
        decide
      · obtain rfl : 's' = c := Option.some.inj hc
        decide
    · rw [if_neg hne, String.toList_ofList]
      exact isTableName_trimmed hsanitised hne
  refine hname _ fun c hc => ?_
  obtain ⟨d, -, rfl⟩ := List.mem_map.mp hc
  by_cases hd : EntityRef.tableNameChar d = true
  · rw [if_pos hd]
    exact hd
  · rw [if_neg hd]
    decide

end Derived

/-! ### The name of an accepted row -/

/-- The last character is a line feed. -/
def EndsInNewline (text : String) : Prop := text.toList.getLast? = some '\n'

instance (text : String) : Decidable (EndsInNewline text) := inferInstanceAs (Decidable (_ = _))

/-- The explicit name of an accepted row, where it has one. -/
theorem matchLine_of_validateTableName {destination : DestinationConfig} (h : validateTableName destination = .ok ())
    (hname : destination.tableName ≠ "") : matchLine tableNameRe destination.tableName = true := by
  unfold validateTableName at h
  split at h
  · cases h
  · rename_i hrefused
    by_contra hmatch
    exact hrefused ⟨hname, Bool.eq_false_of_not_eq_true hmatch⟩

/-- The name of an accepted row's table is in the grammar exactly where the explicit name does not end in a newline. -/
theorem isTableName_iff {convert : Conversions} {parameters : List (String × Json String)} {auth : AuthConfiguration}
    {config : Configuration} (h : Configuration.validate convert parameters = .ok (auth, config)) {row : Row}
    (hrow : row.config = config) :
    IsTableName (tableName row).toList ↔ ¬ EndsInNewline config.destination.tableName := by
  obtain ⟨parts, -, haccepted⟩ := validate_ok.mp h
  have htable := haccepted.tableName
  rw [← haccepted.destination] at htable
  unfold tableName
  rw [hrow]
  by_cases hname : config.destination.tableName = ""
  · rw [if_pos hname]
    refine iff_of_true (isTableName_defaultTableName row.entity) ?_
    rw [hname]
    decide
  · rw [if_neg hname]
    constructor
    · intro hgrammar hend
      have hlast := hgrammar.last '\n' hend
      cases hlast
    · intro hend
      rcases matchLine_tableNameRe.mp (matchLine_of_validateTableName htable hname) with hgrammar | ⟨body, heq, -⟩
      · exact hgrammar
      · refine absurd ?_ hend
        rw [EndsInNewline, heq, List.getLast?_concat]

/-- A row that reads the queue `orders` into the named table. -/
def ordersParameters (table : String) : List (String × Json String) :=
  [("#connection_string", .str "Endpoint=sb://shop"),
    ("source", .obj [("entity_type", .str "queue"), ("queue_name", .str "orders")]),
    ("destination", .obj [("table_name", .str table)])]

/-- The row is accepted, and its explicit name is the one it was given. -/
theorem validate_orders {table : String}
    (h : (Configuration.validate .strict (ordersParameters table)).toOption.map
      (fun row => row.2.destination.tableName) =
      some table) :
    ∃ auth config, Configuration.validate .strict (ordersParameters table) = .ok (auth, config) ∧
      config.destination.tableName = table := by
  obtain ⟨⟨auth, config⟩, hok, htable⟩ := Validated.ok_of_map h
  exact ⟨auth, config, hok, htable⟩

/-- The explicit name `orders-eu` is in the grammar. -/
theorem isTableName_iff_orders : ∃ auth config,
    Configuration.validate .strict (ordersParameters "orders-eu") = .ok (auth, config) ∧
      ∀ row : Row, row.config = config → IsTableName (tableName row).toList := by
  obtain ⟨auth, config, hok, htable⟩ := @validate_orders "orders-eu" (by decide +kernel)
  refine ⟨auth, config, hok, fun row hrow => (isTableName_iff hok hrow).mpr ?_⟩
  rw [htable]
  decide

/-- The explicit name `orders` with a newline after it is accepted, and it is the name of the table. -/
theorem isTableName_newline : ∃ auth config, ∃ row : Row,
    Configuration.validate .strict (ordersParameters "orders\n") = .ok (auth, config) ∧ row.config = config ∧
      tableName row = "orders\n" ∧ ¬ IsTableName (tableName row).toList := by
  obtain ⟨auth, config, hok, htable⟩ := @validate_orders "orders\n" (by decide +kernel)
  have hname : tableName { config := config, codec := textCodec } = "orders\n" := by
    rw [tableName, htable]
    rfl
  refine ⟨auth, config, { config := config, codec := textCodec }, hok, rfl, hname, fun hgrammar => ?_⟩
  have hlast := hgrammar.last '\n' (by rw [hname]; decide)
  cases hlast

end ServiceBusExtractor
