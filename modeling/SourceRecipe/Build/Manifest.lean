import SourceRecipe.Build.Operation
import SourceRecipe.Recipe.Printer

/-!
# Manifests

A manifest lists what a build did, in order.  It turns into a recipe that asks for exactly the
revisions used, so that building from it gives the same trees again.
-/

namespace SourceRecipe

inductive EntryKind where
  | checkout
  | merge
  | nest
  deriving DecidableEq

def EntryKind.name : EntryKind → String
  | checkout => "checkout"
  | merge => "merge"
  | nest => "nest"

structure ManifestEntry where
  kind : EntryKind
  branch : String
  nickname : Option String
  revision : String
  target : SystemPath
  location : Option String
  depth : Nat
  unchanged : Bool
  deriving DecidableEq

structure Manifest where
  version : Option String
  entries : List ManifestEntry
  deriving DecidableEq

def Action.kind : Action → EntryKind
  | checkout => .checkout
  | merge _ _ => .merge
  | nest _ _ => .nest

def Action.location? : Action → Option String
  | nest _ location => some location
  | _ => none

def ManifestEntry.ofOperation (operation : Operation) (unchanged : Bool) : ManifestEntry where
  kind := operation.action.kind
  branch := operation.branch
  nickname := operation.action.nickname?
  revision := operation.revision
  target := operation.target.onSystem
  location := operation.action.location?
  depth := operation.depth
  unchanged := unchanged

namespace ManifestEntry

def source (entry : ManifestEntry) : Source :=
  ⟨entry.branch, .revision entry.revision⟩

/-- The directive that repeats an entry.  A nest without a location is placed at its target. -/
def directive (entry : ManifestEntry) : Directive :=
  match entry.kind with
  | .nest => .nest (entry.location.getD entry.target.shown)
  | _ => .merge

def step (entry : ManifestEntry) : Step Source :=
  ⟨entry.nickname.getD "", entry.directive, entry.source, .done⟩

end ManifestEntry

namespace Manifest

/-- The tree that a manifest describes, if it begins with a checkout. -/
def tree? (manifest : Manifest) : Option (Tree Source) :=
  match manifest.entries with
  | [] => none
  | first :: others =>
      if first.kind = .checkout then
        some ((Tree.mk first.source .done).attach
          (others.map fun entry => (entry.depth, entry.step)))
      else none

def recipe? (manifest : Manifest) : Option Recipe :=
  manifest.tree?.map fun tree => ⟨⟨Header.newestFormat, manifest.version⟩, tree⟩

def text? (manifest : Manifest) : Option (List Char) :=
  manifest.recipe?.map Recipe.text

end Manifest

end SourceRecipe
