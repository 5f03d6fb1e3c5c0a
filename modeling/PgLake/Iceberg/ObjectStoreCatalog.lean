/-
  The catalog file in the object store (`object_store_catalog.c`): one JSON document with the
  metadata locations of all tables, written by `PushMetadataLocationToObjectStoreCatalog` and read
  by `GetTableMetadataLocationFromExternalObjectStoreCatalog`, which puts the content of the file
  between dollar quotes into a query.

  Main result: `catalog_safe_iff`.
-/
import PgLake.Lib.JsonText
import PgLake.Lib.Lookup
import PgLake.Lib.SqlLexer

namespace PgLake.Iceberg.ObjectStoreCatalog

open Lib List

/-! ## Writing -/

/-- A row of `tables_internal`, with the name and schema of its table. -/
structure CatalogTable where
  metadataLocation : Option Text
  catalogTableName : Text
  catalogNamespace : Text
  deriving DecidableEq

/-- The tables of a database; no two have the same name and schema. -/
structure Catalog where
  tables : List CatalogTable
  nodup : (tables.map fun t => (t.catalogNamespace, t.catalogTableName)).Nodup

/-- The text of `FormatCurrentTimestampUTC`, such as `2026-06-16T09:30:00Z`. -/
structure SnapshotTime where
  text : Text
  valid : ∀ c ∈ text, c.isDigit = true ∨ c ∈ ['-', 'T', ':', 'Z']

/-- `EscapeJson` -/
def escapeJsonOrEmpty : Option Text → Text
  | none => ['"', '"']
  | some value => escapeJson value

def appendJsonString (key : String) (value : Option Text) : Text :=
  escapeJson key.toList ++ ':' :: escapeJsonOrEmpty value

def appendJsonKey (key : String) : Text := escapeJson key.toList ++ [':']

variable (t : CatalogTable)

def tableEntry : Text :=
  '{' :: (appendJsonString "metadata-location" t.metadataLocation ++
    ',' :: (appendJsonString "table-name" (some t.catalogTableName) ++
      ',' :: (appendJsonString "namespace" (some t.catalogNamespace) ++ ['}', '\n'])))

/-- The content that `PushMetadataLocationToObjectStoreCatalog` writes. -/
def catalogContent (snapshotTime : SnapshotTime) (catalog : Catalog) : Text :=
  '{' :: (appendJsonString "catalog-snapshot-time" (some snapshotTime.text) ++
    ',' :: (appendJsonKey "tables" ++
      '[' :: (List.intercalate [',', '\n'] (catalog.tables.map tableEntry) ++ [']', '\n', '}'])))

/-! ## Reading -/

def queryStart : Text := "WITH doc AS (   SELECT ".toList

def queryEnd : Text :=
  ("::jsonb AS j ) SELECT t->>'metadata-location' AS metadata_location " ++
    "FROM doc, jsonb_array_elements(j->'tables') AS t " ++
    "WHERE t->>'namespace' = $1 AND t->>'table-name' = $2").toList

/-- The text of the query, with the content in dollar quotes. -/
def getMetadataLocation (catalogContent : Text) : Text :=
  queryStart ++ '$' :: '$' :: (catalogContent ++ '$' :: '$' :: queryEnd)

/-- The text is the fixed query, with the content as the value of its first literal. -/
def LexesAsFixedQuery (catalogContent : Text) : Prop :=
  ∃ before after, lexSql queryStart = some before ∧ lexSql queryEnd = some after ∧
    lexSql (getMetadataLocation catalogContent) = some (before ++ .literal catalogContent :: after)

instance (catalogContent : Text) : Decidable (LexesAsFixedQuery catalogContent) :=
  decidable_of_iff
    (∃ before ∈ lexSql queryStart, ∃ after ∈ lexSql queryEnd,
      lexSql (getMetadataLocation catalogContent) =
        some (before ++ .literal catalogContent :: after))
    ⟨fun ⟨before, hb, after, ha, h⟩ => ⟨before, after, hb, ha, h⟩,
      fun ⟨before, after, hb, ha, h⟩ => ⟨before, hb, after, ha, h⟩⟩

/-- `t->>'key'` -/
def textOf (t : Json) (key : String) : Option Text := (t.get? key).bind Json.asText

def matchingRows (doc : Json) (catalogNamespace catalogTableName : Text) :
    Except String (List (Option Text)) :=
  match doc.get? "tables" with
  | none => .ok []
  | some (.arr items) =>
    .ok ((items.filter fun t => textOf t "namespace" = some catalogNamespace ∧
      textOf t "table-name" = some catalogTableName).map fun t => textOf t "metadata-location")
  | some _ => .error "cannot extract elements"

/-- The query is run.  Another one than the fixed query has no meaning here. -/
def execute (catalogContent catalogNamespace catalogTableName : Text) :
    Except String (List (Option Text)) :=
  if LexesAsFixedQuery catalogContent then
    match parseJson catalogContent with
    | none => .error "invalid input syntax for type json"
    | some doc => matchingRows doc catalogNamespace catalogTableName
  else .error "another query"

def lookupError (what : String) (catalogNamespace catalogTableName : Text) : String :=
  what ++ " catalog table namespace \"" ++ String.ofList catalogNamespace ++
    "\" and catalog table name \"" ++ String.ofList catalogTableName ++
    "\" in object store catalog"

/-- `GetTableMetadataLocationFromExternalObjectStoreCatalog` -/
def getTableMetadataLocation (catalogContent catalogNamespace catalogTableName : Text) :
    Except String Text :=
  match execute catalogContent catalogNamespace catalogTableName with
  | .error e => .error e
  | .ok [] => .error (lookupError "no table found with" catalogNamespace catalogTableName)
  | .ok [some metadataLocation] => .ok metadataLocation
  | .ok [none] =>
    .error (lookupError "no metadata location found for" catalogNamespace catalogTableName)
  | .ok _ => .error (lookupError "multiple tables found with" catalogNamespace catalogTableName)

/-! ## The query -/

theorem lexSql_getMetadataLocation {u : Text} (h : ¬['$', '$'] <:+: u ++ ['$']) (rest : Text) :
    ∃ before, lexSql queryStart = some before ∧
      lexSql (queryStart ++ '$' :: '$' :: (u ++ '$' :: '$' :: rest)) =
        (lexSql rest).map fun after => before ++ .literal u :: after := by
  have hst : ∃ before, lexSql queryStart = some before ∧
      sqlLexer.run .start (queryStart ++ ['$', '$']) = some (.dollar [] [] none, before) :=
    ⟨[.identifier "WITH".toList, .identifier "doc".toList, .identifier "AS".toList, .other '(',
      .identifier "SELECT".toList], by decide +kernel⟩
  obtain ⟨before, hb, hrun⟩ := hst
  refine ⟨before, hb, ?_⟩
  have hs : queryStart ++ '$' :: '$' :: (u ++ '$' :: '$' :: rest) =
      (queryStart ++ ['$', '$']) ++ (u ++ '$' :: '$' :: rest) := by simp
  rw [lexSql, hs, Scanner.scan_append_of_run _ hrun, scan_dollar h, Option.map_map]
  rfl

/-- **The text is the fixed query exactly if the content does not end its literal.** -/
theorem lexesAsFixedQuery_iff (content : Text) :
    LexesAsFixedQuery content ↔ ¬['$', '$'] <:+: content ++ ['$'] := by
  constructor
  · rintro ⟨before, after, hs, -, hlex⟩ hinfix
    obtain ⟨u, w, hc, hf⟩ := exists_first_twice hinfix
    have hsh : u.length < content.length := by
      have := congrArg List.length hc
      simp only [length_append, length_cons, length_nil] at this
      omega
    have ht : content ++ '$' :: '$' :: queryEnd = u ++ '$' :: '$' :: (w ++ '$' :: queryEnd) := by
      have := congrArg (· ++ '$' :: queryEnd) hc
      simpa using this
    obtain ⟨before', hs', hlex'⟩ := lexSql_getMetadataLocation hf (w ++ '$' :: queryEnd)
    rw [hs] at hs'
    cases hs'
    rw [getMetadataLocation, ht, hlex'] at hlex
    obtain ⟨rest, -, heq⟩ := Option.map_eq_some_iff.mp hlex
    have hliteral := (List.cons.inj (append_cancel_left heq)).1
    obtain rfl := SqlToken.literal.inj hliteral
    exact absurd hsh (lt_irrefl _)
  · intro h
    obtain ⟨before, hs, hlex⟩ := lexSql_getMetadataLocation h queryEnd
    have hend : (lexSql queryEnd).isSome = true := by decide +kernel
    obtain ⟨after, ha⟩ := Option.isSome_iff_exists.mp hend
    refine ⟨before, after, hs, ha, ?_⟩
    rw [getMetadataLocation, hlex, ha]
    rfl

/-! ## The document -/

def tableJson : Json :=
  .obj [("metadata-location".toList, .str (t.metadataLocation.getD [])),
    ("table-name".toList, .str t.catalogTableName), ("namespace".toList, .str t.catalogNamespace)]

def catalogJson (snapshotTime : SnapshotTime) (catalog : Catalog) : Json :=
  .obj [("catalog-snapshot-time".toList, .str snapshotTime.text),
    ("tables".toList, .arr (catalog.tables.map tableJson))]

theorem escapeJsonOrEmpty_eq (v : Option Text) :
    escapeJsonOrEmpty v = escapeJson (v.getD []) := by
  cases v <;> rfl

theorem denotes_appendJsonString (k : String) (v : Option Text) :
    DenotesMember (appendJsonString k v) (k.toList, .str (v.getD [])) := by
  intro rest _
  rw [appendJsonString, escapeJsonOrEmpty_eq, append_assoc, lex_escapeJson, cons_append,
    lex_colon, lex_escapeJson]
  simp [Json.tokens, Function.comp_def]

theorem denotes_tableEntry : Denotes (tableEntry t) (tableJson t) := by
  intro rest _
  have hobject := denotes_object separator_comma
    (f := fun m : String × Option Text => appendJsonString m.1 m.2)
    (g := fun m => (m.1.toList, .str (m.2.getD [])))
    fun m (_ : m ∈ [("metadata-location", t.metadataLocation),
      ("table-name", some t.catalogTableName), ("namespace", some t.catalogNamespace)]) =>
        denotes_appendJsonString m.1 m.2
  have hlex := hobject ('\n' :: rest) (delimited_cons ⟨by decide, by decide⟩)
  rw [lex_newline] at hlex
  refine Eq.trans (congrArg lex ?_) hlex
  simp [tableEntry, List.intercalate]

theorem separator_comma_newline : Separator [',', '\n'] :=
  ⟨fun rest => by simp, fun rest => by simp⟩

variable (snapshotTime : SnapshotTime) (catalog : Catalog)

theorem denotes_catalogContent :
    Denotes (catalogContent snapshotTime catalog) (catalogJson snapshotTime catalog) := by
  intro rest _
  have hti := denotes_appendJsonString "catalog-snapshot-time" (some snapshotTime.text)
  have ht := lex_items separator_comma_newline
    fun t (_ : t ∈ catalog.tables) => denotes_tableEntry t
  simp only [catalogContent, appendJsonKey, cons_append, append_assoc, lex_lbrace,
    hti _ (delimited_comma _), lex_comma, lex_escapeJson, nil_append, lex_colon,
    lex_lbracket, ht, lex_newline, lex_rbrace]
  simp [catalogJson, Json.tokens_obj, Json.tokens_arr, Json.membersTokens, Json.membersTail,
    Json.tokens, Function.comp_def]

theorem keysDistinct_catalogJson : (catalogJson snapshotTime catalog).KeysDistinct := by
  have hi : Json.ItemsDistinct (catalog.tables.map tableJson) := by
    rw [Json.itemsDistinct_iff]
    intro v hv
    obtain ⟨t, -, rfl⟩ := mem_map.mp hv
    simp [tableJson, Json.KeysDistinct, Json.MembersDistinct]
  simp [catalogJson, Json.KeysDistinct, Json.MembersDistinct, hi]

theorem parseJson_catalogContent :
    parseJson (catalogContent snapshotTime catalog) = some (catalogJson snapshotTime catalog) :=
  (denotes_catalogContent snapshotTime catalog).parseJson
    (keysDistinct_catalogJson snapshotTime catalog)

theorem matchingRows_catalogJson {t : CatalogTable} (ht : t ∈ catalog.tables) :
    matchingRows (catalogJson snapshotTime catalog) t.catalogNamespace t.catalogTableName =
      .ok [some (t.metadataLocation.getD [])] := by
  have hrs : (catalog.tables.map tableJson).filter (fun v =>
      textOf v "namespace" = some t.catalogNamespace ∧
        textOf v "table-name" = some t.catalogTableName) = [tableJson t] := by
    rw [filter_map]
    have hs : ((fun v => decide (textOf v "namespace" = some t.catalogNamespace ∧
        textOf v "table-name" = some t.catalogTableName)) ∘ tableJson) =
        fun t' => decide ((t'.catalogNamespace, t'.catalogTableName) =
          (t.catalogNamespace, t.catalogTableName)) := by
      funext t'
      have hn : textOf (tableJson t') "table-name" = some t'.catalogTableName := rfl
      have hsp : textOf (tableJson t') "namespace" = some t'.catalogNamespace := rfl
      simp [hn, hsp]
    rw [hs, Lookup.filter_of_mem catalog.nodup ht, map_singleton]
  show Except.ok (List.map _ _) = _
  rw [hrs]
  rfl

/-! ## Dollar signs in the document -/

theorem dollar_not_mem_escapeChar {c : Char} (h : c ≠ '$') :
    '$' ∉ escapeChar c ∧ escapeChar c ≠ [] := by
  induction c using escapeChar_cases with
  | plain c hp => simp [escapeChar_of_isPlain hp, Ne.symm h]
  | control n => interval_cases n <;> decide
  | quote => decide
  | backslash => decide

theorem twice_escapeJson_iff {s : Text} : ['$', '$'] <:+: escapeJson s ↔ ['$', '$'] <:+: s := by
  rw [escapeJson, twice_cons_iff (by decide), twice_append_cons_iff (by decide),
    twice_flatMap_iff rfl fun _ => dollar_not_mem_escapeChar]
  exact or_iff_left (by simp)

theorem twice_appendJsonString_iff {k : String} (hk : '$' ∉ k.toList) {v : Option Text} :
    ['$', '$'] <:+: appendJsonString k v ↔ ['$', '$'] <:+: v.getD [] := by
  have hp : ¬['$', '$'] <:+: k.toList := fun h => hk (h.subset mem_cons_self)
  rw [appendJsonString, twice_append_cons_iff (by decide), escapeJsonOrEmpty_eq,
    twice_escapeJson_iff, twice_escapeJson_iff]
  exact or_iff_right hp

/-- The texts of an entry. -/
def CatalogTable.strings (t : CatalogTable) : List Text :=
  [t.metadataLocation.getD [], t.catalogTableName, t.catalogNamespace]

theorem twice_tableEntry_iff (t : CatalogTable) :
    ['$', '$'] <:+: tableEntry t ↔ ∃ s ∈ t.strings, ['$', '$'] <:+: s := by
  rw [tableEntry, twice_cons_iff (by decide), twice_append_cons_iff (by decide),
    twice_append_cons_iff (by decide), twice_append_cons_iff (by decide),
    twice_cons_iff (by decide), twice_appendJsonString_iff (by decide),
    twice_appendJsonString_iff (by decide), twice_appendJsonString_iff (by decide)]
  simp [CatalogTable.strings]

theorem twice_intercalate_iff {es : List Text} {rest : Text} :
    ['$', '$'] <:+: List.intercalate [',', '\n'] es ++ ']' :: rest ↔
      (∃ e ∈ es, ['$', '$'] <:+: e) ∨ ['$', '$'] <:+: rest := by
  rw [twice_append_cons_iff (by decide)]
  refine or_congr_left ?_
  induction es with
  | nil => simp
  | cons e es ih =>
    cases es with
    | nil => simp
    | cons =>
      rw [intercalate_cons_cons, append_assoc, cons_append,
        twice_append_cons_iff (by decide), singleton_append, twice_cons_iff (by decide), ih]
      exact (exists_mem_cons_iff _ e _).symm

theorem twice_catalogContent_iff : ['$', '$'] <:+: catalogContent snapshotTime catalog ++ ['$'] ↔
      ∃ t ∈ catalog.tables, ∃ s ∈ t.strings, ['$', '$'] <:+: s := by
  have ht : ¬['$', '$'] <:+: snapshotTime.text := fun h => by
    have hc := snapshotTime.valid '$' (h.subset mem_cons_self)
    simp at hc
  have hk : ¬['$', '$'] <:+: "tables".toList := by decide
  simp only [catalogContent, appendJsonKey, cons_append, append_assoc, nil_append]
  rw [twice_cons_iff (by decide), twice_append_cons_iff (by decide),
    twice_appendJsonString_iff (by decide), twice_append_cons_iff (by decide), twice_escapeJson_iff,
    twice_cons_iff (by decide), twice_intercalate_iff, twice_cons_iff (by decide),
    twice_cons_iff (by decide)]
  simp only [Option.getD_some, ht, hk, false_or, mem_map, exists_exists_and_eq_and,
    twice_tableEntry_iff]
  exact or_iff_left (by decide)

theorem lexesAsFixedQuery_catalogContent_iff :
    LexesAsFixedQuery (catalogContent snapshotTime catalog) ↔
      ∀ t ∈ catalog.tables, ∀ s ∈ t.strings, ¬['$', '$'] <:+: s := by
  refine (lexesAsFixedQuery_iff _).trans ((not_congr (twice_catalogContent_iff _ _)).trans ?_)
  simp

theorem getTableMetadataLocation_catalogContent {snapshotTime : SnapshotTime} {catalog : Catalog}
    (hf : LexesAsFixedQuery (catalogContent snapshotTime catalog)) {t : CatalogTable}
    (ht : t ∈ catalog.tables) :
    getTableMetadataLocation (catalogContent snapshotTime catalog) t.catalogNamespace
      t.catalogTableName = .ok (t.metadataLocation.getD []) := by
  unfold getTableMetadataLocation execute
  simp [if_pos hf, parseJson_catalogContent, matchingRows_catalogJson snapshotTime catalog ht]

/-- **What is written can be looked up, and nothing in it is executed, exactly if no string of a
table has two dollar signs in a row.**  A content of any other origin is data exactly if it does
not have them either and does not end in a dollar sign. -/
theorem catalog_safe_iff (content : Text) (snapshotTime : SnapshotTime) (catalog : Catalog) :
    (LexesAsFixedQuery content ↔ ¬['$', '$'] <:+: content ∧ content.getLast? ≠ some '$') ∧
    ((LexesAsFixedQuery (catalogContent snapshotTime catalog) ∧
        ∀ t ∈ catalog.tables, ∀ metadataLocation ∈ t.metadataLocation,
          getTableMetadataLocation (catalogContent snapshotTime catalog) t.catalogNamespace
            t.catalogTableName = .ok metadataLocation) ↔
      ∀ t ∈ catalog.tables, ∀ s ∈ t.strings, ¬['$', '$'] <:+: s) := by
  refine ⟨?_, ?_⟩
  · refine (lexesAsFixedQuery_iff content).trans ?_
    rw [twice_append_singleton_iff, not_or]
  · refine Iff.trans (and_iff_left_of_imp fun hfixed t ht metadataLocation hlocation => ?_)
      (lexesAsFixedQuery_catalogContent_iff snapshotTime catalog)
    rw [getTableMetadataLocation_catalogContent hfixed ht, hlocation, Option.getD_some]

/-- A content that ends the literal and goes on with a command of its own. -/
def injectedContent : Text := "\x7b\x7d$$::jsonb) DELETE FROM t --".toList

/-- A table with two dollar signs in its name. -/
def dollarCatalog : Catalog := ⟨[⟨some "s3://b/m".toList, "a$$b".toList, "public".toList⟩], by simp⟩

theorem content_ends_the_literal :
    ((lexSql (getMetadataLocation injectedContent)).map (List.drop 5) =
        some [.literal "\x7b\x7d".toList, .other ':', .other ':', .identifier "jsonb".toList,
          .other ')', .identifier "DELETE".toList, .identifier "FROM".toList,
          .identifier "t".toList] ∧
      ¬LexesAsFixedQuery injectedContent) ∧
    ¬LexesAsFixedQuery (catalogContent ⟨"2026-06-16T09:30:00Z".toList, by simp⟩ dollarCatalog) := by
  decide +kernel

end PgLake.Iceberg.ObjectStoreCatalog
