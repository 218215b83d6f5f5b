import SourceRecipe.Backend.Rehearsal
import SourceRecipe.Build.ManifestData
import SourceRecipe.Build.Session
import SourceRecipe.Build.Workers
import SourceRecipe.Depot.Backend
import SourceRecipe.Git.Backend
import SourceRecipe.Git.Playback
import SourceRecipe.Recipe.Data
import SourceRecipe.Settings.Directories
import SourceRecipe.Proofs.Build.Unchanged
import SourceRecipe.Proofs.Build.Account
import SourceRecipe.Proofs.Path
import SourceRecipe.Proofs.Build.Course
import SourceRecipe.Proofs.Build.Layout
import SourceRecipe.Proofs.Depot.Ancestry
import SourceRecipe.Proofs.Depot.Reached
import SourceRecipe.Proofs.Build.Changes
import SourceRecipe.Proofs.Build.Places
import SourceRecipe.Proofs.Build.Repeats
import SourceRecipe.Proofs.Depot.Renaming
import SourceRecipe.Proofs.Build.Copies
import SourceRecipe.Proofs.Build.Rebuild
import SourceRecipe.Proofs.Depot.Failures
import SourceRecipe.Proofs.Build.Nodes
import SourceRecipe.Proofs.Build.Pools
import SourceRecipe.Proofs.Build.Lookups
import SourceRecipe.Proofs.Time.Reading
import SourceRecipe.Proofs.Build.Siblings
import SourceRecipe.Proofs.Recipe.Rereading
import SourceRecipe.Proofs.Build.Placeholders
import SourceRecipe.Proofs.Build.Stages
import SourceRecipe.Proofs.Depot.Outages
import SourceRecipe.Proofs.Recipe.Specifiers
import SourceRecipe.Proofs.Recipe.Spacing
import SourceRecipe.Proofs.Depot.ThreeWay
import SourceRecipe.Proofs.Backend.Retrying
import SourceRecipe.Proofs.Depot.Dates
import SourceRecipe.Proofs.Build.Overlaps
import SourceRecipe.Proofs.Settings.RoundTrip
import SourceRecipe.Proofs.Build.Nicknames
import SourceRecipe.Proofs.Build.ManifestData
import SourceRecipe.Proofs.Git.Sessions
import SourceRecipe.Proofs.Git.Retrying
import SourceRecipe.Proofs.Build.LeftOut
import SourceRecipe.Proofs.Depot.Searches
