import AsOf.Journal.Record
import AsOf.Json.Basic
import AsOf.Store.Database
import AsOf.Text.Basic

/-!
# Settings

What can be set for collections and for the journal, and the JSON form in which it is given.

## Main definitions

* `CollectionSettings`, `Configuration`: what can be set
* `ConfigurationError`: why a file is no configuration
* `Json.resourceOptions?`, `Json.configuration?`: settings from a value
* `Configuration.read`: settings from a text
-/

namespace AsOf

open Text

/-! ## What can be set

What can be set for collections and for the journal. Everything that is not set has a default. -/

/-- How a collection names the resources that it creates, and how they are to be stored. -/
structure CollectionSettings where
  resourcePrefix : String := "resource"
  resource : ResourceOptions := {}
deriving DecidableEq, Inhabited, Repr

/-- The threshold of the journal, and what is set for collections. -/
structure Configuration where
  logLevel : Severity := .info
  collection : CollectionSettings := {}
deriving DecidableEq, Inhabited, Repr

/-- Why a text is no configuration. -/
inductive ConfigurationError where
  /-- The file cannot be read. -/
  | unreadable (path reason : String)
  /-- The text does not have the form of a configuration. -/
  | malformed
  /-- The text has the form of a configuration but sets what cannot be. -/
  | invalid (reason : String)
deriving DecidableEq

/-- What is said of an error. -/
def ConfigurationError.text : ConfigurationError → String
  | unreadable path reason => "failed to read config " ++ path ++ ": " ++ reason
  | malformed => "invalid config JSON"
  | invalid reason => "invalid config: " ++ reason

/-! ## The JSON form of settings

A configuration is an object with the fields of the journal and of the collections side by side. -/

namespace Json

/-- A field that may be missing. -/
def orDefault {α : Type} (default : α) (decode : Json → Option α) : Option Json → Option α
  | none => some default
  | some value => decode value

/-- The options of a resource. -/
def resourceOptions? (value : Json) : Option ResourceOptions := do
  let [deweyIds, compression, summary] ←
    value.fields? ["use_dewey_ids", "use_text_compression", "build_path_summary"] | none
  return {
    useDeweyIds := ← orDefault true bool? deweyIds
    useTextCompression := ← orDefault true bool? compression
    buildPathSummary := ← orDefault true bool? summary }

/-- A severity, by its exact name. -/
def severity? (value : Json) : Option Severity := do
  let (name, rest) ← value.alternative?
  if isBare rest then Severity.ofName? name else none

/-- The settings of a collection from the values of their fields. -/
def collectionSettings? (resourcePrefix resource : Option Json) : Option CollectionSettings := do
  return {
    resourcePrefix := ← orDefault "resource" string? resourcePrefix
    resource := ← orDefault {} resourceOptions? resource }

/-- How deep a configuration may nest. -/
def configurationDepth : Nat := 127

/-- A configuration: an object with the threshold of the journal and the settings of collections
side by side. Every value in it has to have a content, also where it counts for nothing. -/
def configuration? : Json → Option Configuration
  | object members => do
    let value := object members
    if value.depth ≤ configurationDepth ∧ value.representable then
      let [logLevel, resourcePrefix, resource] ←
        value.fields? ["log_level", "resource_prefix", "resource"] | none
      return {
        logLevel := ← orDefault .info severity? logLevel
        collection := ← collectionSettings? resourcePrefix resource }
    else none
  | _ => none

end Json

/-- The configuration that a text holds. A prefix of blanks alone is refused. -/
def Configuration.read (s : String) : Except ConfigurationError Configuration :=
  match (Json.read? s).bind Json.configuration? with
  | none => .error .malformed
  | some configuration =>
    if (trim configuration.collection.resourcePrefix.toList).isEmpty then
      .error (.invalid "resource_prefix must not be empty")
    else .ok configuration

end AsOf
