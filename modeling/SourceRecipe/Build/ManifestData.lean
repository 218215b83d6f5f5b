import SourceRecipe.Build.Manifest
import SourceRecipe.Json.Decoding
import SourceRecipe.Json.Printing

/-!
# Manifests as JSON

The form of a manifest in data files.  What is absent is left out; a reader also takes `null`
for it, and counts an entry that does not say so as changed.  A target stands there as text, so a
manifest with a target that is no text has no such form.
-/

namespace SourceRecipe

def EntryKind.ofName? : String → Option EntryKind
  | "checkout" => some .checkout
  | "merge" => some .merge
  | "nest" => some .nest
  | _ => none

def EntryKind.ofJson? (levels : Nat) (json : Json) : Option EntryKind := do
  let (_, name, value) ← json.variant? levels
  if Json.isUnit value then EntryKind.ofName? name else none

/-- A field that is left out when it is absent. -/
def optionalField (name : String) : Option String → List (String × Json)
  | none => []
  | some text => [(name, .ofText text)]

namespace ManifestEntry

def fields (entry : ManifestEntry) (target : String) : List (String × Json) :=
  [("kind", .ofText entry.kind.name), ("branch", .ofText entry.branch)] ++
    (optionalField "nickname" entry.nickname ++
    ([("revision", .ofText entry.revision), ("target", .ofText target)] ++
    (optionalField "location" entry.location ++
    [("depth", .ofNat entry.depth), ("unchanged", .bool entry.unchanged)])))

def toJson? (entry : ManifestEntry) : Option Json :=
  entry.target.text?.map fun target => .ofFields (entry.fields target)

def fieldNames : List String :=
  ["kind", "branch", "nickname", "revision", "target", "location", "depth", "unchanged"]

def ofJson? (levels : Nat) (json : Json) : Option ManifestEntry := do
  let (levels, record) ← json.record? levels fieldNames
  let kind ← record.required "kind" (EntryKind.ofJson? levels)
  let branch ← record.required "branch" Json.text?
  let nickname ← record.withDefault "nickname" none (Json.nullable Json.text?)
  let revision ← record.required "revision" Json.text?
  let target ← record.required "target" Json.text?
  let location ← record.withDefault "location" none (Json.nullable Json.text?)
  let depth ← record.required "depth" (Json.natBelow? Json.wordBound)
  let unchanged ← record.withDefault "unchanged" false Json.bool?
  some ⟨kind, branch, nickname, revision, Path.onSystem ⟨target⟩, location, depth, unchanged⟩

end ManifestEntry

namespace Manifest

def fields (manifest : Manifest) (entries : List Json) : List (String × Json) :=
  optionalField "version" manifest.version ++ [("entries", .array entries)]

/-- A manifest has data only if all its targets are texts. -/
def toJson? (manifest : Manifest) : Option Json :=
  (manifest.entries.mapM ManifestEntry.toJson?).map fun entries => .ofFields (manifest.fields entries)

def jsonText? (manifest : Manifest) : Option (List Char) :=
  manifest.toJson?.map Json.spreadText

def ofJson? (json : Json) : Option Manifest := do
  let (levels, record) ← json.record? Json.levelLimit ["version", "entries"]
  let version ← record.withDefault "version" none (Json.nullable Json.text?)
  let (levels, items) ← record.required "entries" (Json.items? levels)
  let entries ← items.mapM (ManifestEntry.ofJson? levels)
  some ⟨version, entries⟩

def ofJsonText? (text : List Char) : Option Manifest :=
  (Json.read text).bind ofJson?

end Manifest

end SourceRecipe
