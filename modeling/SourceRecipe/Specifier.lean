import SourceRecipe.Time.Reading

/-!
# Revision specifiers

A specifier says which revision of a branch a recipe line asks for.  Its token is the word
that stands for it in recipe text; the tip of a branch has none.
-/

namespace SourceRecipe

open SourceRecipe.Text SourceRecipe.Time

inductive Specifier where
  /-- The newest revision. -/
  | tip
  /-- The revision with this id. -/
  | revision (id : String)
  /-- The newest revision at or before an instant. -/
  | date (instant : Instant)
  /-- The revision that a tag names. -/
  | tag (name : String)
  deriving DecidableEq, Inhabited

inductive SpecifierError where
  | emptyRevision (token : String)
  | emptyTag (token : String)
  | notADate (text : String)
  deriving DecidableEq

def SpecifierError.message : SpecifierError → String
  | emptyRevision token => s!"Empty revision id in '{token}'"
  | emptyTag token => s!"Empty tag in '{token}'"
  | notADate text => s!"Invalid date '{text}', expecting YYYY-MM-DD or RFC 3339"

namespace Specifier

def revisionMark : List Char := "revid:".toList

def tagMark : List Char := "tag:".toList

def dateMark : List Char := "date:".toList

/-- The specifier a token stands for.  A token without a mark is a revision id. -/
def read (token : List Char) : Except SpecifierError Specifier :=
  match dropLead? revisionMark token, dropLead? tagMark token, dropLead? dateMark token with
  | some id, _, _ =>
      if id.isEmpty then .error (.emptyRevision (String.ofList token))
      else .ok (.revision (String.ofList id))
  | none, some name, _ =>
      if name.isEmpty then .error (.emptyTag (String.ofList token))
      else .ok (.tag (String.ofList name))
  | none, none, some text =>
      match Instant.read text with
      | some instant => .ok (.date instant)
      | none => .error (.notADate (String.ofList text))
  | none, none, none => .ok (.revision (String.ofList token))

/-- The token of a specifier; the tip has none. -/
def token? : Specifier → Option (List Char)
  | tip => none
  | revision id => some (revisionMark ++ id.toList)
  | tag name => some (tagMark ++ name.toList)
  | date instant => some (dateMark ++ instant.text)

def text (specifier : Specifier) : String :=
  match specifier.token? with
  | some token => String.ofList token
  | none => "tip"

/-- How a specifier is named when no revision meets it: as to people, but a date in full. -/
def sought : Specifier → String
  | date instant => String.ofList (dateMark ++ instant.rfc3339 "+00:00".toList)
  | specifier => specifier.text

def revision? : Specifier → Option String
  | revision id => some id
  | _ => none

end Specifier

end SourceRecipe
