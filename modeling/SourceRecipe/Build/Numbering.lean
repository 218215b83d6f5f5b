import SourceRecipe.Build.Resolution
import SourceRecipe.Version

/-!
# Revision numbers in versions

The placeholders of a version template are replaced by the revision numbers of the branches
they name, first that of the base, then from the first placeholder on.  Each replacement takes
away an opening brace, so the work ends.
-/

namespace SourceRecipe

open SourceRecipe.Version

namespace Numbering

variable {σ : Type}

def revnoOf (backend : Backend σ) (token : Token) (branch : Pinned) : Build σ Nat := do
  match ← (backend.revno token branch.source.location branch.revision).attempt with
  | .ok (some revno) => return revno
  | .ok none => throw (.version (.unnumbered branch.source.location branch.revision))
  | .error .cancelled => throw .cancelled
  | .error fault => throw (.lookup branch.source.location fault)

/-- A template with the placeholders of nicknamed branches replaced.  `written` is the template
that errors name. -/
def expandNamed (backend : Backend σ) (token : Token) (tree : Tree Pinned) (written : String)
    (template : List Char) : Build σ (List Char) :=
  match _first : firstPlaceholder? template with
  | none => pure template
  | some placeholder =>
      match _named : placeholderNickname? placeholder with
      | none => throw (.version (.unknownPlaceholder (String.ofList placeholder) written))
      | some nickname =>
          match tree.find? (String.ofList nickname) with
          | none => throw (.version (.unknownNickname (String.ofList nickname) written))
          | some step => do
              let revno ← revnoOf backend token step.branch
              expandNamed backend token tree written
                (substituteRevno (some (String.ofList nickname)) revno template)
termination_by template.count '\x7b'
decreasing_by exact count_substituteRevno_lt revno _first _named

def expand (backend : Backend σ) (token : Token) (tree : Tree Pinned) (template : List Char) :
    Build σ (List Char) := do
  let written := String.ofList template
  if needsRevno none template then
    let revno ← revnoOf backend token tree.base
    expandNamed backend token tree written (substituteRevno none revno template)
  else
    expandNamed backend token tree written template

end Numbering

end SourceRecipe
