import SourceRecipe.Build.ManifestData
import SourceRecipe.Proofs.Json.Structures

/-!
# Manifests read back

A manifest written as data is read back as it was, entry by entry: what is absent is left out and
taken for absent again, and every text survives its quotes.  So it describes the same recipe before
and after.  A manifest can be written unless one of its targets is no text, and then no data is read
as it.
-/

namespace SourceRecipe

open SourceRecipe.Json

/-! ## Fields that may be absent -/

theorem mem_optionalField {name : String} {text : Option String} {field : String × Json}
    (member : field ∈ optionalField name text) :
    field.1 = name ∧ IsWritable field.2 := by
  cases text with
  | none => cases member
  | some text =>
      cases List.mem_singleton.mp member
      exact ⟨rfl, isWritable_ofText text⟩

/-- A field that may be absent is read as it was written. -/
theorem withDefault_optional {fields : List (String × Json)} {name : String} {text : Option String}
    (distinct : (fields.map Prod.fst).Nodup)
    (present : ∀ value ∈ text, (name, Json.ofText value) ∈ fields)
    (absent : text = none → name ∉ fields.map Prod.fst) :
    Record.withDefault ⟨fields, false⟩ name none (nullable text?) = some text := by
  cases text with
  | none => exact withDefault_of_not_mem (absent rfl) none _
  | some value =>
      rw [withDefault_of_mem distinct (present value rfl)]
      exact nullable_text?_ofText value

/-! ## Entries -/

namespace EntryKind

theorem ofJson?_ofText_name (levels : Nat) (kind : EntryKind) :
    ofJson? levels (.ofText kind.name) = some kind := by
  cases kind <;> rfl

end EntryKind

namespace SystemPath

theorem text?_eq_some_iff {path : SystemPath} {text : String} :
    path.text? = some text ↔ path = Path.onSystem ⟨text⟩ := by
  obtain ⟨bytes⟩ := path
  rw [text?, String.fromUTF8?, Path.onSystem, mk.injEq]
  constructor
  · intro same
    split at same
    · cases same
      rfl
    · cases same
  · rintro rfl
    exact dif_pos text.isValidUTF8

end SystemPath

namespace ManifestEntry

variable (entry : ManifestEntry) (target : String)

theorem fields_known : ∀ field ∈ entry.fields target, field.1 ∈ fieldNames := by
  cases nickname : entry.nickname <;> cases location : entry.location <;>
    simp [fields, fieldNames, optionalField, nickname, location]

theorem fields_distinct : ((entry.fields target).map Prod.fst).Nodup := by
  cases nickname : entry.nickname <;> cases location : entry.location <;>
    simp [fields, optionalField, nickname, location]

theorem isWritable_ofFields_fields : IsWritable (.ofFields (entry.fields target)) := by
  apply isWritable_ofFields
  intro field member
  simp only [fields, List.mem_append, List.mem_cons, List.not_mem_nil, or_false] at member
  rcases member with (rfl | rfl) | nickname | (rfl | rfl) | location | rfl | rfl
  · exact isWritable_ofText _
  · exact isWritable_ofText _
  · exact (mem_optionalField nickname).2
  · exact isWritable_ofText _
  · exact isWritable_ofText _
  · exact (mem_optionalField location).2
  · exact isWritable_ofNat _
  · exact isWritable_bool _

variable {entry} {target}

/-- An entry is read back from its data. -/
theorem ofJson?_ofFields_fields {levels left : Nat} (enters : enter? levels = some left)
    (small : entry.depth < wordBound) (place : entry.target = Path.onSystem ⟨target⟩) :
    ofJson? levels (.ofFields (entry.fields target)) = some entry := by
  have distinct := entry.fields_distinct target
  have whole : (ofFields (entry.fields target)).record? levels fieldNames =
      some (left, ⟨entry.fields target, false⟩) :=
    record?_ofFields enters (entry.fields_known target) distinct
  have nickname : Record.withDefault ⟨entry.fields target, false⟩ "nickname" none
      (nullable text?) = some entry.nickname := by
    refine withDefault_optional distinct (fun value given => ?_) fun given => ?_
    · simp [fields, optionalField, Option.mem_def.mp given]
    · cases location : entry.location <;> simp [fields, optionalField, given, location]
  have location : Record.withDefault ⟨entry.fields target, false⟩ "location" none
      (nullable text?) = some entry.location := by
    refine withDefault_optional distinct (fun value given => ?_) fun given => ?_
    · simp [fields, optionalField, Option.mem_def.mp given]
    · cases nickname : entry.nickname <;> simp [fields, optionalField, given, nickname]
  have unchanged : Record.withDefault ⟨entry.fields target, false⟩ "unchanged" false bool? =
      some entry.unchanged :=
    withDefault_of_mem distinct
      (show ("unchanged", Json.bool entry.unchanged) ∈ entry.fields target by simp [fields])
      false bool?
  have required {α : Type} (name : String) (value : Json)
      (member : (name, value) ∈ entry.fields target) (decode : Json → Option α) :
      Record.required ⟨entry.fields target, false⟩ name decode = decode value :=
    required_of_mem distinct member decode
  rw [ofJson?, whole]
  simp only [Option.bind_eq_bind, Option.bind_some]
  rw [required "kind" (.ofText entry.kind.name) (by simp [fields]),
    required "branch" (.ofText entry.branch) (by simp [fields]),
    required "revision" (.ofText entry.revision) (by simp [fields]),
    required "target" (.ofText target) (by simp [fields]),
    required "depth" (.ofNat entry.depth) (by simp [fields]),
    EntryKind.ofJson?_ofText_name, nickname, location, unchanged, natBelow?_ofNat small]
  exact congrArg (fun place => some { entry with target := place }) place.symm

theorem toJson?_eq_some_iff {json : Json} :
    entry.toJson? = some json ↔
      ∃ target, entry.target = Path.onSystem ⟨target⟩ ∧ json = .ofFields (entry.fields target) := by
  simp only [toJson?, Option.map_eq_some_iff, SystemPath.text?_eq_some_iff, @eq_comm _ _ json]

theorem toJson?_eq_none_iff : entry.toJson? = none ↔ entry.target.text? = none := by
  rw [toJson?, Option.map_eq_none_iff]

/-- The target of an entry that was read is a text. -/
theorem target_of_ofJson? {levels : Nat} {json : Json} (read : ofJson? levels json = some entry) :
    ∃ text, entry.target = Path.onSystem ⟨text⟩ := by
  simp only [ofJson?, Option.bind_eq_bind, Option.bind_eq_some_iff, Option.some_inj] at read
  obtain ⟨_, _, _, _, _, _, _, _, _, _, target, _, _, _, _, _, _, _, rfl⟩ := read
  exact ⟨target, rfl⟩

end ManifestEntry

/-! ## Manifests -/

namespace Manifest

variable {manifest : Manifest} {entries : List Json}

theorem fields_known (manifest : Manifest) (entries : List Json) :
    ∀ field ∈ manifest.fields entries, field.1 ∈ ["version", "entries"] := by
  cases version : manifest.version <;> simp [fields, optionalField, version]

theorem fields_distinct (manifest : Manifest) (entries : List Json) :
    ((manifest.fields entries).map Prod.fst).Nodup := by
  cases version : manifest.version <;> simp [fields, optionalField, version]

theorem toJson?_eq_some_iff {json : Json} :
    manifest.toJson? = some json ↔
      ∃ entries, manifest.entries.mapM ManifestEntry.toJson? = some entries ∧
        json = .ofFields (manifest.fields entries) := by
  simp only [toJson?, Option.map_eq_some_iff, @eq_comm _ _ json]

theorem toJson?_eq_none_iff :
    manifest.toJson? = none ↔ ∃ entry ∈ manifest.entries, entry.target.text? = none := by
  simp only [toJson?, Option.map_eq_none_iff, mapM_eq_none_iff, ManifestEntry.toJson?_eq_none_iff]

theorem isWritable_of_toJson? {json : Json} (written : manifest.toJson? = some json) :
    IsWritable json := by
  obtain ⟨entries, each, rfl⟩ := toJson?_eq_some_iff.mp written
  apply isWritable_ofFields
  intro field member
  rcases List.mem_append.mp member with version | last
  · exact (mem_optionalField version).2
  · cases List.mem_singleton.mp last
    refine isWritable_array fun data listed => ?_
    obtain ⟨entry, _, one⟩ := exists_of_mem_mapM each listed
    obtain ⟨target, _, rfl⟩ := ManifestEntry.toJson?_eq_some_iff.mp one
    exact entry.isWritable_ofFields_fields target

/-- A manifest is read back from its data. -/
theorem ofJson?_of_toJson? {json : Json} (written : manifest.toJson? = some json)
    (small : ∀ entry ∈ manifest.entries, entry.depth < wordBound) :
    ofJson? json = some manifest := by
  obtain ⟨entries, each, rfl⟩ := toJson?_eq_some_iff.mp written
  have enters : enter? levelLimit = some 127 := rfl
  have innermost : enter? 126 = some 125 := rfl
  have distinct := manifest.fields_distinct entries
  have reads : entries.mapM (ManifestEntry.ofJson? 126) = some manifest.entries := by
    refine mapM_reads_back each fun entry member data one => ?_
    obtain ⟨target, place, rfl⟩ := ManifestEntry.toJson?_eq_some_iff.mp one
    exact ManifestEntry.ofJson?_ofFields_fields innermost (small entry member) place
  have found : Record.required ⟨manifest.fields entries, false⟩ "entries" (items? 127) =
      some (126, entries) := by
    rw [required_of_mem distinct
      (show ("entries", Json.array entries) ∈ manifest.fields entries by simp [fields])]
    rfl
  have version : Record.withDefault ⟨manifest.fields entries, false⟩ "version" none
      (nullable Json.text?) = some manifest.version := by
    refine withDefault_optional distinct (fun value given => ?_) fun given => ?_
    · simp [fields, optionalField, Option.mem_def.mp given]
    · simp [fields, optionalField, given]
  have whole : (ofFields (manifest.fields entries)).record? levelLimit ["version", "entries"] =
      some (127, ⟨manifest.fields entries, false⟩) :=
    record?_ofFields enters (manifest.fields_known entries) distinct
  rw [ofJson?, whole]
  simp only [Option.bind_eq_bind, Option.bind_some]
  rw [version, found]
  simp only [Option.bind_some]
  rw [reads]
  rfl

/-- The targets of a manifest that was read are texts. -/
theorem target_of_ofJsonText? {text : List Char} (read : ofJsonText? text = some manifest)
    {entry : ManifestEntry} (member : entry ∈ manifest.entries) :
    ∃ target, entry.target = Path.onSystem ⟨target⟩ := by
  obtain ⟨json, _, made⟩ := Option.bind_eq_some_iff.mp read
  simp only [ofJson?, Option.bind_eq_bind, Option.bind_eq_some_iff, Option.some_inj] at made
  obtain ⟨_, _, _, _, ⟨_, _⟩, _, entries, each, rfl⟩ := made
  obtain ⟨data, _, one⟩ := exists_of_mem_mapM each member
  exact ManifestEntry.target_of_ofJson? one

/-- A manifest has a text unless one of its targets is no text.  It is read back from its text as it
was, whatever texts its fields hold and whichever of them are absent, and so describes the same recipe
as before. -/
theorem jsonText_reads_back (manifest : Manifest)
    (small : ∀ entry ∈ manifest.entries, entry.depth < wordBound) :
    (manifest.jsonText? = none ↔ ∃ entry ∈ manifest.entries, entry.target.text? = none) ∧
      ∀ text, manifest.jsonText? = some text →
        ofJsonText? text = some manifest ∧
          (ofJsonText? text).map text? = some manifest.text? := by
  refine ⟨?_, fun text written => ?_⟩
  · rw [jsonText?, Option.map_eq_none_iff, toJson?_eq_none_iff]
  · obtain ⟨json, made, rfl⟩ := Option.map_eq_some_iff.mp written
    have read : Json.read json.spreadText = some json :=
      read_textAt spread_isLoose 0 (isWritable_of_toJson? made)
    have whole : ofJsonText? json.spreadText = some manifest := by
      rw [ofJsonText?, read, Option.bind_some, ofJson?_of_toJson? made small]
    exact ⟨whole, by rw [whole, Option.map_some]⟩

/-- A manifest whose texts hold quotes, backslashes, control characters and characters beyond ASCII,
with the greatest depth there is, and with fields that are absent or empty. -/
def awkwardManifest : Manifest :=
  ⟨some "1.0~\"\\\x00\n\u2028é🦀", [
    ⟨.checkout, "base", none, "b1", Path.onSystem ⟨""⟩, none, 0, false⟩,
    ⟨.nest, "art\t#\"v1\"", some "", "a1", Path.onSystem ⟨"./imágenes//"⟩, some "..\\\x7f", 0, true⟩,
    ⟨.merge, "", some "\r\n\x1f", "\x01", Path.onSystem ⟨"/"⟩, none, 18446744073709551615, false⟩]⟩

theorem jsonText_reads_back_awkwardManifest :
    (∀ entry ∈ awkwardManifest.entries, entry.depth < wordBound) ∧
      ∃ text, awkwardManifest.jsonText? = some text ∧ ofJsonText? text = some awkwardManifest := by
  have small : ∀ entry ∈ awkwardManifest.entries, entry.depth < wordBound := by decide
  obtain ⟨refused, reads⟩ := jsonText_reads_back awkwardManifest small
  have texts : ∀ entry ∈ awkwardManifest.entries, entry.target.text? ≠ none := by decide +kernel
  cases written : awkwardManifest.jsonText? with
  | none =>
      obtain ⟨entry, member, strange⟩ := refused.mp written
      exact absurd strange (texts entry member)
  | some text => exact ⟨small, text, rfl, (reads text written).1⟩

/-- A checkout into a directory whose name is no text: its last three bytes would be those of a
character, if half a pair of UTF-16 were one. -/
def halvedManifest : Manifest :=
  ⟨none, [⟨.checkout, "base", none, "b1", ⟨⟨#[0x6f, 0x75, 0x74, 0xed, 0xa0, 0x80]⟩⟩, none, 0, false⟩]⟩

/-- A manifest with a target that is no text is not written, and no text is read as it. -/
theorem halvedManifest_not_read_back :
    (∀ entry ∈ halvedManifest.entries, entry.depth < wordBound) ∧
      halvedManifest.jsonText? = none ∧ ∀ text, ofJsonText? text ≠ some halvedManifest := by
  have strange : SystemPath.text? ⟨⟨#[0x6f, 0x75, 0x74, 0xed, 0xa0, 0x80]⟩⟩ = none := by
    decide +kernel
  refine ⟨by decide, ?_, fun text read => ?_⟩
  · rw [jsonText?, Option.map_eq_none_iff, toJson?_eq_none_iff]
    exact ⟨_, List.mem_cons_self, strange⟩
  · obtain ⟨target, same⟩ := target_of_ofJsonText? read List.mem_cons_self
    rw [SystemPath.text?_eq_some_iff.mpr same] at strange
    cases strange

end Manifest

end SourceRecipe
